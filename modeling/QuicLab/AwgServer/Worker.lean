import QuicLab.AwgServer.Pool

/-!
# The AWG worker

The worker reads the identity store every second and brings its device in line
with it (`Worker.Apply`): it configures the server once, checks all enabled users,
removes the peers that are not wanted any more, and sets those that are new or
have changed. It remembers the text of each peer on the device.

Go iterates its maps in any order; the orders of the three loops of an `Apply` are
given with it (`ApplyEnv`).
-/

namespace QuicLab.AwgServer

open Go Netip

variable {D : Type*}

/-- The worker, with the state of its device and the texts given to it so far. The
    map of texts is nil before the first `Apply`. -/
structure Worker (D : Type*) where
  device : D
  sent : List Bytes
  config : Config
  peers : Option (Map Bytes Bytes)
  activity : Map Bytes PeerStatus
  identity : Bytes
  started : Time

/-- The times an `Apply` reads, and the orders of its loops over the users, the
    texts remembered, and the texts wanted. -/
structure ApplyEnv where
  started : Time
  now : Time
  users : List (Bytes × User)
  peers : List (Bytes × Bytes)
  desired : List (Bytes × Bytes)

/-- The peer of a user, if the user is enabled. -/
def User.enabledPeer (u : User) (now : Time) : Option Peer :=
  if u.enabled now then u.awg else none

/-- The checks of an address that do not depend on other peers. When the address
    of the server does not parse, its network is the zero one, without addresses. -/
def validPeerAddress (network : Option Prefix) (address : Bytes) : Bool :=
  match network, parseAddr address with
  | some network, some ip => network.contains ip ∧ ip ≠ network.addr ∧
      ip ≠ network.masked.addr ∧ ip.next.any network.contains
  | _, _ => false

/-- The loop over the users: the texts wanted, by public key, after those in
    `desired`, with the addresses in `used` already taken. -/
def checkUsers (network : Option Prefix) (now : Time) :
    List (Bytes × User) → (used : List Bytes) → (desired : Map Bytes Bytes) →
      Except Error (Map Bytes Bytes)
  | [], _, desired => .ok desired
  | (_, u) :: users, used, desired =>
    match u.enabledPeer now with
    | none => checkUsers network now users used desired
    | some p =>
      if ¬ validPeerAddress network p.address ∨ p.address ∈ used then
        .error (.new "invalid or duplicate AWG peer address")
      else
        match keyHex p.publicKey with
        | .error e => .error e
        | .ok pub =>
          match keyHex p.psk with
          | .error e => .error e
          | .ok psk =>
            if desired.lookup pub ≠ none then .error (.new "duplicate AWG public key")
            else checkUsers network now users (p.address :: used)
              (desired.insert pub (peerText pub psk p.address))

namespace Worker

/-- The texts remembered; a nil map has none. -/
def texts (w : Worker D) : Map Bytes Bytes := w.peers.getD ∅

/-- `IpcSet`. -/
def ipcSet (dev : Device D) (text : Bytes) (w : Worker D) : Bool × Worker D :=
  ((dev.ipcSet text w.device).1,
    { w with device := (dev.ipcSet text w.device).2, sent := w.sent ++ [text] })

/-- Makes the maps of the worker, the first time. -/
def start (now : Time) (w : Worker D) : Worker D :=
  if w.peers = none then { w with peers := some ∅, activity := ∅, started := now } else w

/-- Configures the server, the first time, and checks its identity after that. -/
def identify (dev : Device D) (i : Identity) (w : Worker D) : Option Error × Worker D :=
  if w.identity = [] then
    match keyHex i.privateKey with
    | .error e => (some e, w)
    | .ok key =>
      match w.ipcSet dev (serverText key (itoa w.config.port) i.parameters) with
      | (false, w) => (some (.new "AWG device configuration rejected"), w)
      | (true, w) => (none, { w with identity := i.privateKey })
  else if w.identity ≠ i.privateKey then
    (some (.new "AWG server identity changed; restart worker"), w)
  else (none, w)

/-- The loop that removes the peers not in `desired`. -/
def revoke (dev : Device D) (desired : Map Bytes Bytes) :
    List (Bytes × Bytes) → Worker D → Option Error × Worker D
  | [], w => (none, w)
  | (pub, _) :: peers, w =>
    if desired.lookup pub = none then
      match w.ipcSet dev (removeText pub) with
      | (false, w) => (some (.new "cannot revoke AWG peer"), w)
      | (true, w) => revoke dev desired peers { w with peers := some (w.texts.erase pub) }
    else revoke dev desired peers w

/-- The loop that sets the peers that are new or have changed. -/
def install (dev : Device D) : List (Bytes × Bytes) → Worker D → Option Error × Worker D
  | [], w => (none, w)
  | (pub, text) :: desired, w =>
    if w.texts.lookup pub ≠ some text then
      match w.ipcSet dev text with
      | (false, w) => (some (.new "cannot apply AWG peer"), w)
      | (true, w) => install dev desired { w with peers := some (w.texts.insert pub text) }
    else install dev desired w

/-- `Worker.Apply`. -/
def apply (dev : Device D) (env : ApplyEnv) (state : State) (w : Worker D) :
    Option Error × Worker D :=
  match state.awg with
  | none => (some (.new "AWG identity has not been provisioned"), w)
  | some i =>
    match (w.start env.started).identify dev i with
    | (some e, w) => (some e, w)
    | (none, w) =>
      -- All users are checked before the first peer is touched.
      match checkUsers (parsePrefix w.config.address) env.now env.users [] ∅ with
      | .error e => (some e, w)
      | .ok desired =>
        match w.revoke dev desired env.peers with
        | (some e, w) => (some e, w)
        | (none, w) => w.install dev env.desired

end Worker

/-- The loops of an `Apply` visit the maps they range over. -/
structure ApplyEnv.Ranges (env : ApplyEnv) (state : State) (w : Worker D) : Prop where
  users : Map.IsRange env.users state.users
  peers : Map.IsRange env.peers w.texts
  desired : ∀ desired, checkUsers (parsePrefix w.config.address) env.now env.users [] ∅ =
    .ok desired → Map.IsRange env.desired desired

end QuicLab.AwgServer
