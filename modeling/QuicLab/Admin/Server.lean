import QuicLab.Admin.Store
import QuicLab.System

/-!
# The admin server

The store as a system: any number of connections and admin requests call it, in
any order, and the server may stop and open its store again at any point. A call
is one step, as it runs under the lock of the store; a `SetProtocols` or `Delete`
that succeeded leaves a request with close functions to call, each of which is a
step of its own.

What is assumed of the environment is in `Assumptions`: which configurations AWG
may be given, and whether the random keys of peers are new. Random ids are always
assumed to be new.
-/

namespace QuicLab.Admin

open Go
open AwgServer (Config Identity Peer PeerSeed IdentitySeed PeerStatus Status)

/-- A session that was registered. -/
structure Session where
  user : Bytes
  token : Bytes
  protocol : Bytes
  close : ℕ
  deriving DecidableEq

/-- A `SetProtocols`, with its settings, or a `Delete`, without, after its locked
    part: the close functions it collected, and those it has not called yet. -/
structure Request where
  user : Bytes
  settings : Option (List Bytes × Bool)
  collected : Map Bytes ℕ
  pending : Map Bytes ℕ

/-- The calls of the store by admin requests and statistics. -/
inductive Call
  | configureAWG (c : Option Config) (seed : Except String IdentitySeed) (err : Option String)
  | create (env : Store.CreateEnv) (name : Bytes) (protocols : Option (List Bytes))
  | rename (id name : Bytes) (err : Option String)
  | setProtocols (id : Bytes) (protocols : List Bytes) (disabled : Bool)
      (seed : Except String PeerSeed) (err : Option String)
  | delete (id : Bytes) (err : Option String)
  | track (cs : ConnectionState) (transport peer : Bytes) (now : Time) (token : Bytes)
      (err : Option String)
  | trackDone (id token : Bytes) (since : Time) (peer : Bytes) (err : Option String)
  | observeAWG (status : Status) (now : Time) (err : Option String)

/-- The error of a call, the request it leaves, and the store after it. -/
def Call.apply (x : Certs) : Call → Store → Option Error × Option Request × Store
  | .configureAWG c seed err, s =>
    ((s.configureAWG c seed err).1, none, (s.configureAWG c seed err).2)
  | .create env name protocols, s =>
    match s.createWithProtocols x env name protocols with
    | (.error e, s') => (some e, none, s')
    | (.ok _, s') => (none, none, s')
  | .rename id name err, s =>
    ((s.rename id name err).1, none, (s.rename id name err).2)
  | .setProtocols id protocols disabled seed err, s =>
    match s.setProtocols id protocols disabled seed err with
    | (.error e, s') => (some e, none, s')
    | (.ok m, s') => (none, some ⟨id, some (protocols, disabled), m, m⟩, s')
  | .delete id err, s =>
    match s.delete id err with
    | (.error e, s') => (some e, none, s')
    | (.ok m, s') => (none, some ⟨id, none, m, m⟩, s')
  | .track cs transport peer now token err, s =>
    (none, none, (s.track x cs transport peer now token err).2)
  | .trackDone id token since peer err, s => (none, none, s.trackDone id token since peer err)
  | .observeAWG status now err, s => (none, none, s.observeAWG status now err)

/-- The public key of a new peer is not that of another one. -/
def FreshKey (seed : Except String PeerSeed) (s : Store) : Prop :=
  ∀ keys, seed = .ok keys → ∀ id v p, s.state.users.lookup id = some v → v.awg = some p →
    p.publicKey ≠ base64Encode keys.publicKey

/-- What is assumed of the environment. -/
structure Assumptions where
  /-- The configurations AWG may be given. -/
  config : Config → Prop
  /-- Are the public keys of new peers assumed to be new? -/
  freshKeys : Prop

/-- One configuration of AWG, or none, and new keys. -/
def Assumptions.fixed (cfg : Option Config) : Assumptions := ⟨fun c => cfg = some c, True⟩

/-- What is assumed of a call. -/
def Call.Assumed (A : Assumptions) : Call → Store → Prop
  | .configureAWG c _ _, _ => ∀ c' ∈ c, A.config c'
  | .create env _ _, s =>
    s.state.users.lookup env.id = none ∧ (A.freshKeys → FreshKey env.peer s)
  | .setProtocols _ _ _ seed _, s => A.freshKeys → FreshKey seed s
  | _, _ => True

/-- The server: stopped, with its file, or running with its store. -/
inductive Process
  | stopped (file : Option DiskState)
  | running (s : Store)

/-- The server and what happens around its store: the sessions registered so far,
    those not released yet, the requests, and the close functions called. -/
structure Server where
  process : Process
  registered : List Session
  sessions : List Session
  requests : List Request
  closed : List ℕ

/-- What can happen. -/
inductive Action
  | open (env : Store.OpenEnv)
  | stop
  | call (c : Call)
  | register (cs : ConnectionState) (protocol : Bytes) (close : ℕ) (now : Time) (token : Bytes)
  | release (σ : Session)
  | close (token : Bytes)

/-- The server that was never started. -/
def Server.initial : Server := ⟨.stopped none, [], [], [], []⟩

/-- The steps of the server. Tokens and close functions are those of one session
    only; a session may be released more than once; when the server stops, its
    sessions end. -/
inductive Server.Step (x : Certs) (A : Assumptions) : Server → Action → Server → Prop
  | open {v : Server} {file : Option DiskState} {env : Store.OpenEnv} {s : Store}
      (stopped : v.process = .stopped file) (ok : Store.openStore env file = .ok s) :
      Step x A v (.open env) { v with process := .running s }
  | stop {v : Server} {s : Store} (running : v.process = .running s) :
      Step x A v .stop ⟨.stopped s.file, [], [], [], []⟩
  | call {v : Server} {s s' : Store} {c : Call} {e : Option Error} {r : Option Request}
      (running : v.process = .running s) (assumed : c.Assumed A s)
      (result : c.apply x s = (e, r, s')) :
      Step x A v (.call c) { v with process := .running s', requests := v.requests ++ r.toList }
  | register {v : Server} {s s' : Store} {cs : ConnectionState} {protocol token id : Bytes}
      {close : ℕ} {now : Time} (running : v.process = .running s)
      (fresh : ∀ σ ∈ v.registered, σ.token ≠ token ∧ σ.close ≠ close)
      (ok : s.registerProtocol x cs protocol close now token = (.ok id, s')) :
      Step x A v (.register cs protocol close now token)
        { v with
          process := .running s'
          registered := ⟨id, token, protocol, close⟩ :: v.registered
          sessions := ⟨id, token, protocol, close⟩ :: v.sessions }
  | release {v : Server} {s : Store} {σ : Session} (running : v.process = .running s)
      (registered : σ ∈ v.registered) :
      Step x A v (.release σ)
        { v with
          process := .running (s.release σ.user σ.token)
          sessions := v.sessions.filter (· ≠ σ) }
  | close {v : Server} {before after : List Request} {r : Request} {token : Bytes} {c : ℕ}
      (requests : v.requests = before ++ r :: after) (pending : r.pending.lookup token = some c) :
      Step x A v (.close token)
        { v with
          requests := before ++ { r with pending := r.pending.erase token } :: after
          closed := c :: v.closed }

/-- The server under any calls. -/
def Server.system (x : Certs) (A : Assumptions) : System Server Action where
  init v := v = Server.initial
  step := Server.Step x A

end QuicLab.Admin
