import QuicLab.Go.Reader
import QuicLab.Go.Time
import QuicLab.System

/-!
# Path migration of the echo client

A `Client` has one QUIC connection, which it moves from one UDP socket to another.
Next to the active path it keeps up to two standbys, `prepared` and `parked`, each
for the key of an Android network. A transport that is no longer needed is given to
a goroutine that closes it once the connection lets go of it (`retire`); `Stop`
waits for these goroutines and closes the active path.

Calls hold the lock of the client, so a call is one step, but for `Stop`, which
holds it while the goroutines finish. How the operating system and the connection
answer is given to each call. Of a `quic.Path` only its transport is kept.
-/

namespace QuicLab.Mobile

open Go

/-- A transport: its socket, told apart by a number, and the key it was opened for.
    That of `Start` is for no key. -/
structure Transport where
  socket : ℕ
  key : Option Bytes
  deriving DecidableEq

/-- A `preparedPath`. -/
structure PreparedPath where
  key : Bytes
  transport : Transport
  checked : Time
  opened : transport.key = some key

/-- A connection: why it was closed, if it was. -/
structure Conn where
  cause : Option Bytes

/-- Where a goroutine of `retire` is: it waits first, then it tries again and again. -/
inductive Stage where
  | grace
  | trying
  deriving DecidableEq

/-- A goroutine of `retire`. -/
structure Retirement where
  transport : Transport
  stage : Stage
  deriving DecidableEq

/-- A `Client`, and the sockets opened and closed so far. The path of the
    active transport is known only if it was a standby. -/
structure Client where
  prepared : Option PreparedPath
  parked : Option PreparedPath
  retirement : List Retirement
  conn : Option Conn
  activePath : Option Transport
  paths : List Transport
  opened : List Transport
  closed : List Transport
  closedPaths : List Transport

/-- `NewClient`. -/
def newClient : Client where
  prepared := none
  parked := none
  retirement := []
  conn := none
  activePath := none
  paths := []
  opened := []
  closed := []
  closedPaths := []

/-- What `Start` meets: errors of the endpoint or of the TLS configuration, the
    socket it is given, and errors of the connection, its stream and the gateway. -/
structure StartEnv where
  config : Option Error
  socket : Except String ℕ
  dial : Option String
  stream : Option String
  echo : Option String

/-- What `PreparePath` and `MigrateTo` meet: the time, the socket they are given,
    the outcomes of `AddPath`, `Probe` and `Switch`, and the time after the probe. -/
structure PathEnv where
  now : Time
  socket : Except String ℕ
  addPath : Option String
  probe : Option String
  probed : Time
  switch : Option String

namespace Client

/-! ## Transports -/

/-- `newTransport` gives a transport. -/
def add (t : Transport) (c : Client) : Client := { c with opened := t :: c.opened }

/-- `transport.close`. -/
def close (t : Transport) (c : Client) : Client := { c with closed := t :: c.closed }

/-- `Close` of the path of a transport. -/
def closePath (t : Transport) (c : Client) : Client :=
  { c with closedPaths := t :: c.closedPaths }

/-- `retire`: the goroutine it starts. -/
def retire (t : Transport) (c : Client) : Client :=
  { c with retirement := c.retirement ++ [⟨t, .grace⟩] }

/-- `discardPrepared`. -/
def discardPrepared (c : Client) : Client :=
  match c.prepared with
  | none => c
  | some p => { (c.closePath p.transport).retire p.transport with prepared := none }

/-- `discardParked`. -/
def discardParked (c : Client) : Client :=
  match c.parked with
  | none => c
  | some p => { (c.closePath p.transport).retire p.transport with parked := none }

/-! ## Calls -/

/-- `Start`. Its transport is closed again if there is no echo. -/
def start (intervalMS : ℤ) (env : StartEnv) (c : Client) : Option Error × Client :=
  if c.conn.isSome then (some (.new "stop the current experiment first"), c)
  else if intervalMS < 10 ∨ 5000 < intervalMS then
    (some (.new "prototype interval must be 10..5000 ms"), c)
  else
    match env.config, env.socket with
    | some e, _ => (some e, c)
    | none, .error e => (some (.sys e), c)
    | none, .ok n =>
      match env.dial <|> env.stream <|> env.echo with
      | some e => (some (.sys e), (c.add ⟨n, none⟩).close ⟨n, none⟩)
      | none => (none, { c.add ⟨n, none⟩ with conn := some ⟨none⟩, paths := [⟨n, none⟩] })

/-- Why there is no open connection, if there is none. -/
def connected (c : Client) : Option Error :=
  match c.conn with
  | none => some (.new "not connected")
  | some conn => conn.cause.map fun cause => .errorf "connection closed: %w" [cause]

/-- The first case of `prepare`: the standby is for another key, and is parked. -/
def park (key : Bytes) (c : Client) : Client :=
  match c.prepared with
  | none => c
  | some p =>
    if p.key = key then c
    else if c.parked.any (·.key = key) then { c with prepared := c.parked, parked := some p }
    else { c.discardParked with parked := some p, prepared := none }

/-- The second case of `prepare`: the parked standby is the one for the key. -/
def unpark (key : Bytes) (c : Client) : Client :=
  match c.prepared, c.parked with
  | none, some q => if q.key = key then { c with prepared := some q, parked := none } else c
  | _, _ => c

/-- The standby of `prepare`: the one that is prepared, or a new one. -/
def standby (key : Bytes) (env : PathEnv) (c : Client) : Except Error PreparedPath × Client :=
  match c.prepared with
  | some p => (.ok p, c)
  | none =>
    match env.socket with
    | .error e => (.error (.sys e), c)
    | .ok n =>
      match env.addPath with
      | some e => (.error (.sys e), (c.add ⟨n, some key⟩).close ⟨n, some key⟩)
      | none =>
        let p : PreparedPath := ⟨key, ⟨n, some key⟩, 0, rfl⟩
        (.ok p, { c.add ⟨n, some key⟩ with prepared := some p })

/-- `prepare`. The path it returns is `prepared`. -/
def prepare (key : Bytes) (env : PathEnv) (c : Client) : Except Error PreparedPath × Client :=
  match c.connected with
  | some e => (.error e, c)
  | none =>
    match ((c.park key).unpark key).standby key env with
    | (.error e, c) => (.error e, c)
    | (.ok p, c) =>
      match env.probe with
      | some e =>
        -- The socket is kept for another try.
        (.error (.sys e), { c with prepared := some { p with checked := 0 } })
      | none =>
        let p := { p with checked := env.probed }
        (.ok p, { c with prepared := some p })

/-- `PreparePath`. -/
def preparePath (key : Bytes) (env : PathEnv) (c : Client) : Option Error × Client :=
  match c.prepare key env with
  | (.error e, c) => (some e, c)
  | (.ok _, c) => (none, c)

/-- `InvalidatePath`. -/
def invalidatePath (key : Bytes) (c : Client) : Client :=
  let c := if c.prepared.any (·.key = key) then c.discardPrepared else c
  if c.parked.any (·.key = key) then c.discardParked else c

/-- The end of `MigrateTo`: the standby becomes the active path. -/
def switch (env : PathEnv) (next : PreparedPath) (c : Client) : Option Error × Client :=
  match env.switch with
  | some e => (some (.sys e), c.discardPrepared)
  | none =>
    match c.paths with
    | [] => (some (.sys "index out of range"), c)
    | old :: _ =>
      let c := match c.activePath with
        | none => c
        | some t => c.closePath t
      (none, retire old
        { c with
          paths := [next.transport]
          activePath := some next.transport
          prepared := none })

/-- The standby of a key, if it was checked in the last three seconds. -/
def warm (key : Bytes) (now : Time) (c : Client) : Option PreparedPath :=
  c.prepared.filter fun p => p.key = key ∧ now - p.checked < 3 * second

/-- `MigrateTo`. -/
def migrateTo (key : Bytes) (env : PathEnv) (c : Client) : Option Error × Client :=
  match c.connected with
  | some e => (some e, c)
  | none =>
    match c.warm key env.now with
    | some next => c.switch env next
    | none =>
      match c.prepare key env with
      | (.error e, c) => (some e, c)
      | (.ok next, c) => c.switch env next

/-- The start of `Stop`: the standbys are discarded and the connection is closed. -/
def stop (c : Client) : Client :=
  let c := c.discardPrepared.discardParked
  { c with conn := c.conn.map fun conn => ⟨conn.cause <|> some (str "experiment stopped")⟩ }

/-- The end of `Stop`, when the goroutines have finished. -/
def stopped (c : Client) : Client :=
  { c with closed := c.paths ++ c.closed, paths := [], conn := none, activePath := none }

end Client

/-! ## Runs -/

/-- A client, and whether a `Stop` waits. -/
structure World where
  client : Client
  stopping : Bool

/-- What can happen. -/
inductive Act where
  | start (intervalMS : ℤ) (env : StartEnv)
  | preparePath (key : Bytes) (env : PathEnv)
  | migrateTo (key : Bytes) (env : PathEnv)
  | invalidatePath (key : Bytes)
  | stop
  /-- `Stop` returns. -/
  | stopped
  /-- The connection is closed by the peer, or by an error. -/
  | disconnect (cause : Bytes)
  /-- A goroutine of `retire` goes on: it has waited, or `RetireTransport` returned. -/
  | retire (t : Transport) (ok : Bool)

/-- The socket a call is given is a new one. -/
def Fresh (socket : Except String ℕ) (c : Client) : Prop :=
  ∀ n, socket = .ok n → ∀ t ∈ c.opened, t.socket ≠ n

/-- The steps. -/
inductive World.Step : World → Act → World → Prop
  | start {c : Client} {intervalMS : ℤ} {env : StartEnv} (fresh : Fresh env.socket c) :
      Step ⟨c, false⟩ (.start intervalMS env) ⟨(c.start intervalMS env).2, false⟩
  | preparePath {c : Client} {key : Bytes} {env : PathEnv} (fresh : Fresh env.socket c) :
      Step ⟨c, false⟩ (.preparePath key env) ⟨(c.preparePath key env).2, false⟩
  | migrateTo {c : Client} {key : Bytes} {env : PathEnv} (fresh : Fresh env.socket c) :
      Step ⟨c, false⟩ (.migrateTo key env) ⟨(c.migrateTo key env).2, false⟩
  | invalidatePath (c : Client) (key : Bytes) :
      Step ⟨c, false⟩ (.invalidatePath key) ⟨c.invalidatePath key, false⟩
  | stop {c : Client} {conn : Conn} (connected : c.conn = some conn) :
      Step ⟨c, false⟩ .stop ⟨c.stop, true⟩
  | stopIdle {c : Client} (idle : c.conn = none) : Step ⟨c, false⟩ .stop ⟨c, false⟩
  | stopped {c : Client} (finished : c.retirement = []) :
      Step ⟨c, true⟩ .stopped ⟨c.stopped, false⟩
  | disconnect {w : World} {cause : Bytes} (connected : w.client.conn = some ⟨none⟩) :
      Step w (.disconnect cause) { w with client := { w.client with conn := some ⟨some cause⟩ } }
  | grace {w : World} {t : Transport} {before after : List Retirement} (ok : Bool)
      (waiting : w.client.retirement = before ++ ⟨t, .grace⟩ :: after) :
      Step w (.retire t ok)
        { w with client := { w.client with retirement := before ++ ⟨t, .trying⟩ :: after } }
  | retired {w : World} {t : Transport} {ok : Bool} {before after : List Retirement} {conn : Conn}
      (connected : w.client.conn = some conn)
      (trying : w.client.retirement = before ++ ⟨t, .trying⟩ :: after)
      (done : ok = true ∨ conn.cause.isSome) :
      Step w (.retire t ok)
        { w with client := { w.client.close t with retirement := before ++ after } }
  | retry {w : World} {t : Transport} {before after : List Retirement}
      (connected : w.client.conn = some ⟨none⟩)
      (trying : w.client.retirement = before ++ ⟨t, .trying⟩ :: after) : Step w (.retire t false) w

/-- The client under any calls. -/
def World.system : System World Act where
  init w := w = ⟨newClient, false⟩
  step := World.Step

end QuicLab.Mobile
