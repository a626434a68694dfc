import QuicLab.Admin.Stats
import QuicLab.AwgServer.Config

/-!
# The identity store

The store of the admin server (`Store`): the users with their credentials, their
AWG peers and their live sessions, and the file `identities.json` they are saved
to. Each operation runs under the store's lock, so it is a function of the store;
the close functions of `SetProtocols` and `Delete`, which are called after the
lock was released, are returned.

What an operation takes from its environment is given to it: the time, random
ids and keys, certificates, and whether a save succeeds. A save replaces the file
by the state or leaves it as it was, and reading the file gives the state saved.
Close functions are told apart by numbers.
-/

namespace QuicLab.Admin

open Go
open AwgServer (Config Identity Peer PeerSeed IdentitySeed PeerStatus Status)

/-- A user, as it is saved. -/
structure User where
  disabled : Bool
  protocols : Option (List Bytes)
  awg : Option Peer
  lastConnected : Time
  lastTransport : Bytes
  lastSource : Bytes
  id : Bytes
  name : Bytes
  created : Time
  expires : Time
  certificate : Bytes
  key : Bytes
  deriving DecidableEq

/-- The content of `identities.json`. -/
structure DiskState where
  awg : Option Identity
  version : ℤ
  ca : Bytes
  key : Bytes
  users : Map Bytes User

/-- The store. `file` is what is stored at its path, `notAfter` the end of its
    CA's certificate; `active` has the close function of each session by user and
    token. -/
structure Store where
  awgConfig : Option Config
  awgPrevious : Map Bytes PeerStatus
  awgUpdated : Time
  awgStarted : Time
  sessionProtocols : Map Bytes Bytes
  stats : Map Bytes UserTraffic
  file : Option DiskState
  state : DiskState
  notAfter : Time
  active : Map Bytes (Map Bytes ℕ)

/-- The zero value of a user. -/
def User.zero : User where
  disabled := false
  protocols := none
  awg := none
  lastConnected := 0
  lastTransport := []
  lastSource := []
  id := []
  name := []
  created := 0
  expires := 0
  certificate := []
  key := []

/-- `User.Allows`. -/
def User.allows (u : User) (protocol : Bytes) : Bool := AwgServer.enabled u.protocols protocol

/-- The encodings of certificates the store uses. -/
structure Certs where
  /-- `pem.EncodeToMemory`, of a kind and the bytes of a block. -/
  encode : Bytes → Bytes → Bytes
  /-- `pem.Decode`: the bytes of the first block. -/
  decode : Bytes → Option Bytes
  /-- `sha256.Sum256`. -/
  sha256 : Bytes → Bytes

/-- A client certificate: the common name of its subject, and its bytes. -/
structure ClientCert where
  commonName : Bytes
  raw : Bytes

/-- The state of a TLS connection: whether there are verified chains, and the
    certificates of the peer. -/
structure ConnectionState where
  verified : Bool
  peerCertificates : List ClientCert

namespace Store

/-! ## Saving and opening -/

/-- `save`, failing with the error given, if any. -/
def save (err : Option String) (s : Store) : Option Error × Store :=
  match err with
  | some e => (some (.sys e), s)
  | none => (none, { s with file := some s.state })

/-- What `OpenStore` takes from its environment: an error of the directory or of
    the file, the certificate of the CA (by its end) or why it is not accepted, the
    texts of a new CA, and the error of the first save. -/
structure OpenEnv where
  io : Option String
  ca : Except Error Time
  caText : Bytes
  keyText : Bytes
  save : Option String

/-- A store just opened. -/
def opened (file : Option DiskState) (state : DiskState) (notAfter : Time) : Store where
  awgConfig := none
  awgPrevious := ∅
  awgUpdated := 0
  awgStarted := 0
  sessionProtocols := ∅
  stats := ∅
  file := file
  state := state
  notAfter := notAfter
  active := ∅

/-- `OpenStore`, of what is stored at the path. -/
def openStore (env : OpenEnv) (file : Option DiskState) : Except Error Store :=
  match env.io with
  | some e => .error (.sys e)
  | none =>
    match file with
    | some state =>
      if state.version ≠ 1 then .error (.new "invalid identity store")
      else
        match env.ca with
        | .error e => .error e
        | .ok notAfter => .ok (opened file state notAfter)
    | none =>
      match env.ca with
      | .error e => .error e
      | .ok notAfter =>
        match save env.save (opened none ⟨none, 1, env.caText, env.keyText, ∅⟩ notAfter) with
        | (some e, _) => .error e
        | (none, s) => .ok s

/-! ## AWG -/

/-- `ConfigureAWG`. -/
def configureAWG (c : Option Config) (seed : Except String IdentitySeed) (err : Option String)
    (s : Store) : Option Error × Store :=
  match c with
  | none => (none, s)
  | some c =>
    match c.validate with
    | some e => (some e, s)
    | none =>
      -- The configuration stays even if there is no identity in the end.
      let s := { s with awgConfig := some c }
      if s.state.awg.isSome then (none, s)
      else
        match AwgServer.newIdentity seed with
        | .error e => (some e, s)
        | .ok i =>
          match save err { s with state := { s.state with awg := some i } } with
          | (some e, s) => (some e, { s with state := { s.state with awg := none } })
          | (none, s) => (none, s)

/-- The checks of a list of protocols in `provisionAWG`. -/
def checkProtocols (protocols : Option (List Bytes)) : Option Error :=
  match protocols with
  | none => none
  | some ps =>
    if ps.length = 0 ∨ 3 < ps.length then some (.new "choose at least one protocol")
    else if ps.Nodup ∧ ∀ p ∈ ps, p = str "quic" ∨ p = str "https" ∨ p = str "awg" then none
    else some (.new "invalid protocol selection")

/-- The loop of `provisionAWG`, of at most `k` rounds: the first address from `ip`
    on that is not used, while the next one is in the network. -/
def freeAddress (network : Netip.Prefix) (used : Bytes → Bool) : ℕ → Netip.Addr → Option Bytes
  | 0, _ => none
  | k + 1, ip =>
    match ip.next with
    | none => none
    | some next =>
      if ¬ network.contains next then none
      else if ¬ used ip.string then some ip.string
      else freeAddress network used k next

/-- The addresses in use: the server's, and those of the peers of all users. -/
def used (network : Netip.Prefix) (s : Store) (address : Bytes) : Bool :=
  address = network.addr.string ∨ s.state.users.Any fun _ v => ∃ p ∈ v.awg, p.address = address

/-- `provisionAWG`: the user with a peer, if it is to have one. -/
def provisionAWG (seed : Except String PeerSeed) (u : User) (s : Store) : Except Error User :=
  match checkProtocols u.protocols with
  | some e => .error e
  | none =>
    if ¬ u.allows (str "awg") then .ok u
    else
      match s.awgConfig, s.state.awg with
      | some c, some _ =>
        if u.awg.isSome then .ok u
        else
          match Netip.parsePrefix c.address with
          | none => .error (.new "AWG address pool exhausted")
          | some network =>
            -- A network of `b` bits has `2 ^ (32 - b)` addresses.
            match network.masked.addr.next.bind
                (freeAddress network (s.used network) (2 ^ (32 - network.bits))) with
            | none => .error (.new "AWG address pool exhausted")
            | some address =>
              match AwgServer.newPeer address seed with
              | .error e => .error e
              | .ok p => .ok { u with awg := some p }
      | _, _ => .error (.new "AWG server is not configured")

/-! ## Users -/

/-- What `CreateWithProtocols` takes from its environment: the errors of the key
    and of the serial number, the time, the id, the randomness of a peer, the
    certificate and the key, and the error of the save. -/
structure CreateEnv where
  generateKey : Option String
  serial : Option String
  now : Time
  id : Bytes
  peer : Except String PeerSeed
  certificate : Except String Bytes
  keyDER : Except String Bytes
  save : Option String

/-- The user `CreateWithProtocols` makes, without its certificate. -/
def newUser (env : CreateEnv) (name : Bytes) (protocols : Option (List Bytes)) : User :=
  { User.zero with
    id := env.id
    name := name
    created := env.now
    expires := Time.addDays env.now 90
    protocols := protocols }

/-- Adds a user, and removes it again if the save fails: the end of
    `CreateWithProtocols`. -/
def add (u : User) (err : Option String) (s : Store) : Except Error User × Store :=
  match save err { s with state := { s.state with users := s.state.users.insert u.id u } } with
  | (some e, s) =>
    (.error e, { s with state := { s.state with users := s.state.users.erase u.id } })
  | (none, s) => (.ok u, s)

/-- `CreateWithProtocols`. -/
def createWithProtocols (x : Certs) (env : CreateEnv) (name : Bytes)
    (protocols : Option (List Bytes)) (s : Store) : Except Error User × Store :=
  if name.length = 0 ∨ 100 < name.length then (.error (.new "name must contain 1..100 bytes"), s)
  else if 1000 ≤ s.state.users.len then (.error (.new "user limit"), s)
  else if s.state.users.Any fun _ u => u.name = name then (.error (.new "name already exists"), s)
  else
    match env.generateKey, env.serial with
    | some e, _ => (.error (.sys e), s)
    | none, some e => (.error (.sys e), s)
    | none, none =>
      match s.provisionAWG env.peer (newUser env name protocols) with
      | .error e => (.error e, s)
      | .ok u =>
        let u := if s.notAfter < u.expires then { u with expires := s.notAfter } else u
        if u.expires ≤ env.now then (.error (.new "CA expired"), s)
        else
          match env.certificate, env.keyDER with
          | .error e, _ => (.error (.sys e), s)
          | .ok _, .error e => (.error (.sys e), s)
          | .ok der, .ok kb =>
            add
              { u with
                certificate := x.encode (str "CERTIFICATE") der ++ s.state.ca
                key := x.encode (str "PRIVATE KEY") kb } env.save s

/-- Replaces a user, and puts the old one back if the save fails: the end of
    `Rename` and of `SetProtocols`. -/
def replace (id : Bytes) (old u : User) (err : Option String) (s : Store) : Option Error × Store :=
  match save err { s with state := { s.state with users := s.state.users.insert id u } } with
  | (some e, s) =>
    (some e, { s with state := { s.state with users := s.state.users.insert id old } })
  | (none, s) => (none, s)

/-- `Rename`. -/
def rename (id name : Bytes) (err : Option String) (s : Store) : Option Error × Store :=
  match s.state.users.lookup id with
  | none => (some (.new "unknown user"), s)
  | some old =>
    if name.length = 0 ∨ 100 < name.length then (some (.new "name must contain 1..100 bytes"), s)
    else if s.state.users.Any fun other u => other ≠ id ∧ u.name = name then
      (some (.new "name already exists"), s)
    else replace id old { old with name := name } err s

/-- The close functions of the sessions that a user's new settings revoke. -/
def revoked (id : Bytes) (u : User) (disabled : Bool) (s : Store) : Map Bytes ℕ :=
  ((s.active.lookup id).getD ∅).filter fun token _ =>
    disabled ∨ ¬ u.allows ((s.sessionProtocols.lookup token).getD [])

/-- The locked part of `SetProtocols`: the close functions to call, by token. -/
def setProtocols (id : Bytes) (protocols : List Bytes) (disabled : Bool)
    (seed : Except String PeerSeed) (err : Option String) (s : Store) :
    Except Error (Map Bytes ℕ) × Store :=
  match s.state.users.lookup id with
  | none => (.error (.new "unknown user"), s)
  | some old =>
    match s.provisionAWG seed { old with protocols := some protocols, disabled := disabled } with
    | .error e => (.error e, s)
    | .ok u =>
      match replace id old u err s with
      | (some e, s) => (.error e, s)
      | (none, s) => (.ok (s.revoked id u disabled), s)

/-- The locked part of `Delete`: the close functions to call, by token. -/
def delete (id : Bytes) (err : Option String) (s : Store) : Except Error (Map Bytes ℕ) × Store :=
  match s.state.users.lookup id with
  | none => (.error (.new "unknown user"), s)
  | some u =>
    match save err { s with state := { s.state with users := s.state.users.erase id } } with
    | (some e, s) =>
      (.error e, { s with state := { s.state with users := s.state.users.insert id u } })
    | (none, s) =>
      -- The protocols of the sessions stay until each of them is released.
      (.ok ((s.active.lookup id).getD ∅),
        { s with stats := s.stats.erase id, active := s.active.erase id })

/-! ## Sessions -/

/-- `allowed`: the id of the user a connection belongs to. -/
def allowed (x : Certs) (cs : ConnectionState) (now : Time) (s : Store) : Except Error Bytes :=
  match cs.verified, cs.peerCertificates with
  | true, cert :: _ =>
    match s.state.users.lookup cert.commonName with
    | none => .error (.new "client revoked or expired")
    | some u =>
      if u.disabled ∨ u.expires < now then .error (.new "client revoked or expired")
      else
        match x.decode u.certificate with
        | none => .error (.new "identity mismatch")
        | some b =>
          if x.sha256 b ≠ x.sha256 cert.raw then .error (.new "identity mismatch") else .ok u.id
  | _, _ => .error (.new "verified client certificate required")

/-- `RegisterProtocol`, with the token it draws: the id of the user. -/
def registerProtocol (x : Certs) (cs : ConnectionState) (protocol : Bytes) (close : ℕ)
    (now : Time) (token : Bytes) (s : Store) : Except Error Bytes × Store :=
  match s.allowed x cs now with
  | .error e => (.error e, s)
  | .ok id =>
    if ¬ ((s.state.users.lookup id).getD .zero).allows protocol then
      (.error (.new "protocol disabled for this user"), s)
    else
      (.ok id,
        { s with
          active := s.active.insert id (((s.active.lookup id).getD ∅).insert token close)
          sessionProtocols := s.sessionProtocols.insert token protocol })

/-- The function `RegisterProtocol` returns, which ends the session. -/
def release (id token : Bytes) (s : Store) : Store :=
  let sessions := ((s.active.lookup id).getD ∅).erase token
  { s with
    active := if Map.len sessions = 0 then s.active.erase id else s.active.insert id sessions
    sessionProtocols := s.sessionProtocols.erase token }

/-- Records a connection of a user: the fields that are saved best effort. -/
def connected (id : Bytes) (u : User) (time : Time) (transport source : Bytes) (s : Store) :
    Store :=
  let u := { u with lastConnected := time, lastTransport := transport, lastSource := source }
  { s with state := { s.state with users := s.state.users.insert id u } }

/-- The start of a live connection. -/
def startLive (id token transport : Bytes) (now : Time) (s : Store) : Store :=
  let traffic := (s.stats.lookup id).getD .new
  { s with
    stats := s.stats.insert id
      { traffic with live := traffic.live.insert token ⟨transport, now⟩ } }

/-- `Track`, with the token it draws: the id of the user it tracks, if any. -/
def track (x : Certs) (cs : ConnectionState) (transport peer : Bytes) (now : Time)
    (token : Bytes) (err : Option String) (s : Store) : Option Bytes × Store :=
  match s.allowed x cs now with
  | .error _ => (none, s)
  | .ok id =>
    (some id, (save err (connected id ((s.state.users.lookup id).getD .zero) now transport
      (sourceIP peer) (s.startLive id token transport now))).2)

/-- The end of a live connection. -/
def endLive (id token : Bytes) (s : Store) : Store :=
  match s.stats.lookup id with
  | none => s
  | some traffic => { s with stats := s.stats.insert id (traffic.delete token) }

/-- The function `Track` returns for the end of the connection; `since` is the
    time it was tracked at. -/
def trackDone (id token : Bytes) (since : Time) (peer : Bytes) (err : Option String)
    (s : Store) : Store :=
  match s.state.users.lookup id with
  | none => s.endLive id token
  | some u =>
    if u.lastConnected ≠ since then s.endLive id token
    else
      (save err (connected id u u.lastConnected u.lastTransport (sourceIP peer)
        (s.endLive id token))).2

/-- A difference of counters as an `int`; zero if the counter went back. -/
def counted (before after : UInt64) : ℤ :=
  if before ≤ after then ((after - before).toNat : ℤ).bmod (2 ^ 64) else 0

/-- The statistics of a peer that is reported. -/
def countPeer (now : Time) (p : PeerStatus) (s : Store) : Store :=
  let traffic := (s.stats.lookup p.id).getD .new
  let traffic := match s.awgPrevious.lookup p.id with
    | none => traffic
    | some previous => traffic.add now (counted previous.tx p.tx) (counted previous.rx p.rx)
  let live : LiveConnection := ⟨str "AmneziaWG · канал подтверждён", p.handshake⟩
  let traffic :=
    if s.awgConfig.any fun c => p.activity ≠ 0 ∧ now - p.activity < c.offlineAfter then
      { traffic with live := traffic.live.insert (str "awg") live }
    else traffic
  { s with
    stats := s.stats.insert p.id traffic
    awgPrevious := s.awgPrevious.insert p.id p }

/-- The loop of `ObserveAWG`: has a user changed, and the store. -/
def observePeer (now : Time) (acc : Bool × Store) (p : PeerStatus) : Bool × Store :=
  match acc.2.state.users.lookup p.id with
  | none => acc
  | some u =>
    if u.disabled ∨ ¬ u.allows (str "awg") then acc
    else if u.lastConnected < p.handshake then
      (true, connected p.id u p.handshake (str "AmneziaWG") (sourceIP p.source)
        (acc.2.countPeer now p))
    else if u.lastTransport = str "AmneziaWG" ∧ u.lastSource ≠ sourceIP p.source ∧
        p.handshake ≠ 0 then
      (true, connected p.id u u.lastConnected u.lastTransport (sourceIP p.source)
        (acc.2.countPeer now p))
    else (acc.1, acc.2.countPeer now p)

/-- The start of `ObserveAWG`: no peer is live until it is reported again. -/
def endPeers (s : Store) : Store := { s with stats := s.stats.mapVals (·.delete (str "awg")) }

/-- Takes a status; the counters of a worker that was started anew start anew. -/
def takeStatus (status : Status) (s : Store) : Store :=
  { s with
    awgUpdated := status.updated
    awgPrevious := if s.awgStarted ≠ status.started then ∅ else s.awgPrevious
    awgStarted := status.started }

/-- `ObserveAWG`. -/
def observeAWG (status : Status) (now : Time) (err : Option String) (s : Store) : Store :=
  if status.updated = 0 ∨ 5 * second < now - status.updated then s.endPeers
  else
    let r := status.peers.foldl (observePeer now) (false, s.endPeers.takeStatus status)
    if r.1 then (save err r.2).2 else r.2

end Store

end QuicLab.Admin
