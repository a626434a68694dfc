import QuicLab.Admin.Profile
import QuicLab.Threads

/-!
# The web interface of the admin server

The handlers of the admin's requests (type `Web`) run concurrently. They share the
logins and the enrollment tickets, kept in memory under the lock `w.mu`, the store,
the captures, and the file `admin-sessions.json`. Some of them hold the mutex
`userCaptureMu` to their end.

* `Web.Tables`: logins and tickets, with a function for each part of a handler
  that runs under `w.mu`;
* `Web.Op`, `Web.exec`: the atomic operations of the handlers. Each is such a part,
  or one call of the store, of the capture manager, or of one of its sessions;
* the handlers, as programs of these operations;
* `Web.machine`: any number of requests, interleaved with each other, with the
  time, with the other users of the store and of the captures, and with restarts.

What a handler takes from its environment is given with its request: whether the
files are saved, seeds of keys, what comes of starting a capture. Times and random
values are read when an operation is taken; random values are distinct. Where a
handler answers with a page or with JSON, as the client likes, the model has JSON.
-/

namespace QuicLab.Admin

open Go
open AwgServer (PeerSeed)

/-! ## Logins and tickets -/

/-- A login. -/
structure Web.Session where
  csrf : Bytes
  untilTime : Time
  deriving DecidableEq

/-- An enrollment ticket. -/
structure Web.Ticket where
  user : Bytes
  untilTime : Time
  deriving DecidableEq

/-- The content of `admin-sessions.json`. -/
structure Web.SessionFile where
  credential : Bytes
  sessions : Map Bytes Web.Session

/-- What `w.mu` guards, and the file, which is saved under it. -/
structure Web.Tables where
  sessions : Map Bytes Web.Session
  tickets : Map Bytes Web.Ticket
  attempts : ℕ
  window : Time
  file : Option Web.SessionFile

/-- How long a login lasts. -/
def Web.loginLifetime : Duration := 8 * 60 * 60 * second

/-- How long an enrollment ticket is good for. -/
def Web.ticketLifetime : Duration := 5 * 60 * second

/-- A login that succeeded. -/
structure Web.Login where
  token : Bytes
  csrf : Bytes
  time : Time

/-- The entry of a login. -/
def Web.Login.session (l : Web.Login) : Web.Session := ⟨l.csrf, l.time + Web.loginLifetime⟩

namespace Web.Tables

/-- `prune`. -/
def prune (now : Time) (t : Tables) : Tables :=
  { t with
    sessions := t.sessions.filter fun _ s => ¬ s.untilTime < now
    tickets := t.tickets.filter fun _ k => ¬ k.untilTime < now }

/-- `getSession`. -/
def getSession (cookie : Option Bytes) (now : Time) (t : Tables) : Option Web.Session × Tables :=
  match cookie with
  | none => (none, t)
  | some c => ((t.prune now).sessions.lookup c, t.prune now)

/-- `saveSessions`, failing with the error given, if any. -/
def saveSessions (credential : Bytes) (err : Option String) (t : Tables) : Option Error × Tables :=
  match err with
  | some e => (some (.sys e), t)
  | none => (none, { t with file := some ⟨credential, t.sessions⟩ })

/-- The attempts of `login` in the current minute: is the limit reached? -/
def limit (now : Time) (t : Tables) : Bool × Tables :=
  let t := if 60 * second < now - t.window then { t with window := now, attempts := 0 } else t
  (20 < t.attempts + 1, { t with attempts := t.attempts + 1 })

/-- How `login` ends. -/
inductive LoginResult
  | full
  | failed
  | ok (l : Web.Login)

/-- The end of `login`. -/
def newSession (credential : Bytes) (err : Option String) (token csrf : Bytes) (now : Time)
    (t : Tables) : LoginResult × Tables :=
  let t := t.prune now
  if 128 ≤ t.sessions.len then (.full, t)
  else
    let l : Web.Login := ⟨token, csrf, now⟩
    match { t with sessions := t.sessions.insert token l.session }.saveSessions credential err with
    | (some _, t) => (.failed, { t with sessions := t.sessions.erase token })
    | (none, t) => (.ok l, t)

/-- The locked part of `logout`: the entry deleted, which is a zero value if there
    is none, and whether the deletion was saved. -/
def removeSession (credential : Bytes) (err : Option String) (cookie : Bytes) (t : Tables) :
    (Web.Session × Bool) × Tables :=
  let previous := (t.sessions.lookup cookie).getD ⟨[], 0⟩
  match { t with sessions := t.sessions.erase cookie }.saveSessions credential err with
  | (some _, t) => ((previous, false), { t with sessions := t.sessions.insert cookie previous })
  | (none, t) => ((previous, true), t)

/-- The loop of `revokeTickets` and `delete`. -/
def dropTickets (user : Bytes) (t : Tables) : Tables :=
  { t with tickets := t.tickets.filter fun _ k => k.user ≠ user }

/-- The locked part of `qr`. -/
def issueTicket (user token : Bytes) (now : Time) (t : Tables) : Tables :=
  let t := (t.prune now).dropTickets user
  { t with tickets := t.tickets.insert token ⟨user, now + ticketLifetime⟩ }

/-- The locked part of `enroll`. -/
def takeTicket (token : Bytes) (now : Time) (t : Tables) : Option Web.Ticket × Tables :=
  let t := t.prune now
  (t.tickets.lookup token, { t with tickets := t.tickets.erase token })

/-- `loadSessions` after a restart. -/
def restart (credential : Bytes) (now : Time) (t : Tables) : Tables :=
  let empty : Tables := ⟨∅, ∅, 0, 0, t.file⟩
  match t.file with
  | none => empty
  | some f =>
    if f.credential = credential then { empty with sessions := f.sessions }.prune now else empty

end Web.Tables

/-! ## Requests -/

/-- The values of a form the handlers read, empty if they are absent. -/
structure Web.Form where
  csrf : Bytes := []
  id : Bytes := []
  name : Bytes := []
  protocolsPresent : Bytes := []
  protocol : List Bytes := []
  disabled : Bytes := []
  action : Bytes := []
  kind : Bytes := []
  username : Bytes := []
  password : Bytes := []

/-- What happens around a request: the errors of saving the logins and the store,
    the environment of a new user, the seed of a new peer, what comes of starting
    `tcpdump`, the sessions `StartUser` has visited, the error of `captureAWG`, and,
    of a viewer, the error of its peer address and whether the socket is accepted. -/
structure Web.Around where
  saveSessions : Option String := none
  save : Option String := none
  create : Store.CreateEnv
  seed : Except String PeerSeed
  startup : DebugCapture.Manager.Startup
  visited : Bytes → Bool
  captureAWG : Option Error := none
  peer : Option Error := none
  accepted : Bool := true

/-- A request with a form, if it can be parsed. -/
structure Web.Request where
  cookie : Option Bytes
  origin : Bytes
  form : Option Web.Form
  around : Web.Around

/-- The values of the form. -/
def Web.Request.values (r : Web.Request) : Web.Form := r.form.getD {}

/-- The answer to a request. That of `enroll` comes with the token it is for, and
    that of `logout` with the CSRF token of the login it has authorized. -/
inductive Web.Reply
  | error (status : ℕ) (e : Error)
  | redirect (path : Bytes)
  | page (status : ℕ)
  | json
  | profile (token : Bytes) (p : Profile)
  | loggedOut (csrf : Bytes)

/-- The server as it is set up: `base` and `origin` are taken from the public URL,
    and the configuration of captures has its ports. -/
structure Web.Setup where
  config : Web.Config
  base : Bytes
  origin : Bytes
  certs : Certs
  assumptions : Assumptions

/-- `credentialID`. -/
def Web.Setup.credential (w : Web.Setup) : Bytes :=
  hexEncode (w.certs.sha256 (w.config.username ++ 0 :: w.config.password))

/-! ## Operations -/

/-- A user as `List` shows it, without its secrets. -/
def User.listed (u : User) : User :=
  { u with
    key := []
    certificate := []
    awg := u.awg.map fun p => { p with privateKey := [], psk := [] } }

/-- The user with an identifier in `List`: users are stored under their identifiers. -/
def Store.find (id : Bytes) (s : Store) : Option User := (s.state.users.lookup id).map User.listed

/-- The shared state of the handlers. `userCaptureMu` is held by a handler, or by
    none; `drawn` are the random values so far. The capture manager is there also
    when captures are not configured; it is not called then. -/
structure Web where
  tables : Web.Tables
  store : Store
  capture : DebugCapture.Manager
  userCaptureMu : Option ℕ
  now : Time
  drawn : List Bytes

namespace Web

/-- The atomic operations of the handlers. -/
inductive Op
  | lock
  | unlock
  | time
  | getSession (cookie : Option Bytes)
  | limit
  | newSession (err : Option String)
  | removeSession (cookie : Bytes) (err : Option String)
  | issueTicket (user : Bytes)
  | takeTicket (token : Bytes)
  | dropTickets (user : Bytes)
  | profile (id : Bytes)
  | awgProfile (id : Bytes)
  | find (id : Bytes)
  | store (c : Call)
  | capture (c : DebugCapture.Call)
  | getCapture (id owner : Bytes)
  | userCapture (user : Bytes)
  | reply (r : Reply)

/-- The result of an operation. `getCapture` says whether there is a session;
    `userCapture` gives a session by its identifier and its owner. -/
@[reducible]
def Result : Op → Type
  | .lock => Unit
  | .unlock => Unit
  | .time => Time
  | .getSession _ => Option Session
  | .limit => Bool
  | .newSession _ => Tables.LoginResult
  | .removeSession _ _ => Session × Bool
  | .issueTicket _ => Bytes × Time
  | .takeTicket _ => Option Ticket
  | .dropTickets _ => Unit
  | .profile _ => Except Error User
  | .awgProfile _ => Except Error Bytes
  | .find _ => Option User
  | .store _ => Option Error
  | .capture _ => Except Error Bytes
  | .getCapture _ _ => Bool
  | .userCapture _ => Option (Bytes × Bytes)
  | .reply _ => Unit

/-- A random value of `n` digits. -/
def Fresh (n : ℕ) (b : Bytes) (drawn : List Bytes) : Prop := b.length = n ∧ b ∉ drawn

/-- What an operation of the thread `i` does. -/
def exec (w : Setup) (i : ℕ) : (e : Op) → Web → Result e → Web → Prop
  | .lock, s, _, s' => s.userCaptureMu = none ∧ s' = { s with userCaptureMu := some i }
  | .unlock, s, _, s' => s' = { s with userCaptureMu := none }
  | .time, s, r, s' => r = s.now ∧ s' = s
  | .getSession cookie, s, r, s' =>
    r = (s.tables.getSession cookie s.now).1 ∧
      s' = { s with tables := (s.tables.getSession cookie s.now).2 }
  | .limit, s, r, s' =>
    r = (s.tables.limit s.now).1 ∧ s' = { s with tables := (s.tables.limit s.now).2 }
  | .newSession err, s, r, s' =>
    ∃ token csrf, Fresh 48 token s.drawn ∧ Fresh 48 csrf (token :: s.drawn) ∧
      r = (s.tables.newSession w.credential err token csrf s.now).1 ∧
      s' = { s with
        tables := (s.tables.newSession w.credential err token csrf s.now).2
        drawn := csrf :: token :: s.drawn }
  | .removeSession cookie err, s, r, s' =>
    r = (s.tables.removeSession w.credential err cookie).1 ∧
      s' = { s with tables := (s.tables.removeSession w.credential err cookie).2 }
  | .issueTicket user, s, r, s' =>
    Fresh 48 r.1 s.drawn ∧ r.2 = s.now ∧
      s' = { s with tables := s.tables.issueTicket user r.1 s.now, drawn := r.1 :: s.drawn }
  | .takeTicket token, s, r, s' =>
    r = (s.tables.takeTicket token s.now).1 ∧
      s' = { s with tables := (s.tables.takeTicket token s.now).2 }
  | .dropTickets user, s, _, s' => s' = { s with tables := s.tables.dropTickets user }
  | .profile id, s, r, s' => r = s.store.profile id s.now ∧ s' = s
  | .awgProfile id, s, r, s' => r = s.store.awgProfile id s.now ∧ s' = s
  | .find id, s, r, s' => r = s.store.find id ∧ s' = s
  | .store c, s, r, s' =>
    c.Assumed w.assumptions s.store ∧ r = (c.apply w.certs s.store).1 ∧
      s' = { s with store := (c.apply w.certs s.store).2.2 }
  | .capture c, s, r, s' =>
    ∃ random, Fresh 64 random s.drawn ∧ r = (s.capture.apply c s.now random).1 ∧
      s' = { s with
        capture := (s.capture.apply c s.now random).2
        drawn := random :: s.drawn }
  | .getCapture id owner, s, r, s' => r = (s.capture.get id owner s.now).isSome ∧ s' = s
  | .userCapture user, s, r, s' =>
    (match r with
      | none => ∀ id, ¬ s.capture.IsUserCapture user id
      | some (id, owner) => s.capture.IsUserCapture user id ∧
          (s.capture.find id).map (·.owner) = some owner) ∧ s' = s
  | .reply _, s, _, s' => s' = s

/-! ## Handlers -/

/-- A handler, or a part of one. -/
abbrev Handler (α : Type) := Prog Op Result α

/-- The handler of one operation. -/
abbrev call (e : Op) : Handler (Result e) := Prog.call e

/-- The answer with an error text. -/
def fail (status : ℕ) (text : String) : Handler Unit := call (.reply (.error status (.new text)))

/-- `http.NotFound`. -/
def notFound : Handler Unit := fail 404 "404 page not found"

variable (w : Setup)

/-- The redirection to the page of users. -/
def toUsers : Handler Unit := call (.reply (.redirect (w.base ++ str "users")))

/-- A handler that holds `userCaptureMu` to its end. -/
def serialized (h : Handler Unit) : Handler Unit := do
  call .lock
  h
  call .unlock

/-- `authorized`, and what follows it. -/
def authorized (r : Request) (post : Bool) (h : Session → Handler Unit) : Handler Unit := do
  match ← call (.getSession r.cookie) with
  | none => call (.reply (.redirect (w.base ++ str "login")))
  | some s =>
    if post ∧ (r.origin ≠ w.origin ∨ ¬ r.form.any (·.csrf = s.csrf)) then
      fail 403 "Invalid form; reload the page"
    else h s

/-- A call of the captures, if they are configured. -/
def ifCapture (c : DebugCapture.Call) : Handler Unit :=
  if w.config.capture.isSome then do
    let _ ← call (.capture c)
  else pure ()

/-- `loginPage`. -/
def loginPage (r : Request) : Handler Unit := do
  match ← call (.getSession r.cookie) with
  | some _ => toUsers w
  | none => call (.reply (.page 200))

/-- `users`, and likewise each page that only shows something to an admin. -/
def users (r : Request) : Handler Unit :=
  authorized w r false fun _ => call (.reply (.page 200))

/-- `login`. -/
def login (r : Request) : Handler Unit := do
  if r.origin ≠ w.origin ∨ r.form.isNone then fail 403 "Invalid origin"
  else if ← call .limit then fail 429 "Too many attempts; retry in a minute"
  else if w.certs.sha256 (r.values.username ++ 0 :: r.values.password) ≠
      w.certs.sha256 (w.config.username ++ 0 :: w.config.password) then
    call (.reply (.page 401))
  else
    match ← call (.newSession r.around.saveSessions) with
    | .full => fail 429 "Session limit"
    | .failed => fail 503 "Session storage unavailable"
    | .ok _ => toUsers w

/-- `logout`. -/
def logout (r : Request) : Handler Unit :=
  serialized <| authorized w r true fun s => do
    match ← call (.removeSession (r.cookie.getD []) r.around.saveSessions) with
    | (_, false) => fail 503 "Session storage unavailable"
    | (previous, true) =>
      ifCapture w (.stopOwner previous.csrf)
      call (.reply (.loggedOut s.csrf))

/-- `add`. -/
def add (r : Request) : Handler Unit :=
  serialized <| authorized w r true fun _ => do
    let protocols := if r.values.protocolsPresent = str "1" then some r.values.protocol else none
    match ← call (.store (.create r.around.create (trimSpace r.values.name) protocols)) with
    | some _ => call (.reply (.page 400))
    | none => toUsers w

/-- `rename`. -/
def rename (r : Request) : Handler Unit :=
  authorized w r true fun _ => do
    match ← call (.store (.rename r.values.id (trimSpace r.values.name) r.around.save)) with
    | some _ => call (.reply (.page 400))
    | none => toUsers w

/-- `revokeTickets`. -/
def revokeTickets (id : Bytes) : Handler Unit := do
  ifCapture w (.stopUser id)
  call (.dropTickets id)

/-- `delete`. -/
def delete (r : Request) : Handler Unit :=
  serialized <| authorized w r true fun _ => do
    match ← call (.store (.delete r.values.id r.around.save)) with
    | some _ => fail 400 "Cannot delete user"
    | none =>
      revokeTickets w r.values.id
      toUsers w

/-- The end of `protocols` and `toggle`. -/
def setProtocols (r : Request) (protocols : List Bytes) (disabled : Bool) : Handler Unit := do
  match ← call (.store
      (.setProtocols r.values.id protocols disabled r.around.seed r.around.save)) with
  | some e => call (.reply (.error 400 e))
  | none =>
    revokeTickets w r.values.id
    toUsers w

/-- `protocols`. -/
def protocols (r : Request) : Handler Unit :=
  serialized <| authorized w r true fun _ => do
    match ← call (.find r.values.id) with
    | none => notFound
    | some found => setProtocols w r r.values.protocol found.disabled

/-- `toggle`. -/
def toggle (r : Request) : Handler Unit :=
  serialized <| authorized w r true fun _ => do
    if r.values.disabled ≠ str "true" ∧ r.values.disabled ≠ str "false" then
      fail 400 "Invalid state"
    else
      match ← call (.find r.values.id) with
      | none => notFound
      | some u =>
        setProtocols w r (u.protocols.getD [str "quic", str "https"])
          (r.values.disabled = str "true")

/-- `qr`. Its image may be unavailable. -/
def qr (r : Request) (image : Option Error) : Handler Unit :=
  authorized w r true fun _ => do
    match ← call (.profile r.values.id) with
    | .error _ => notFound
    | .ok u =>
      let _ ← call (.issueTicket u.id)
      match image with
      | some _ => fail 500 "QR unavailable"
      | none => call (.reply (.page 200))

/-- `enroll`, of the token in its body, if it can be decoded. -/
def enroll (token : Option Bytes) : Handler Unit :=
  match token with
  | none => fail 400 "Invalid enrollment"
  | some token => do
    if token.length ≠ 48 then fail 400 "Invalid enrollment"
    else
      match ← call (.takeTicket token) with
      | none => fail 410 "QR expired or already used"
      | some t =>
        match ← call (.profile t.user) with
        | .error _ => fail 410 "User no longer available"
        | .ok u =>
          if u.allows (str "awg") then
            match ← call (.awgProfile u.id) with
            | .error _ => fail 409 "Profile unavailable"
            | .ok raw =>
              call (.reply (.profile token { baseProfile w.config u with awgConfig := raw }))
          else call (.reply (.profile token (baseProfile w.config u)))

/-- `ownedCapture`, of a form, and what follows it. -/
def ownedCapture (r : Request) (id : Bytes) (h : Handler Unit) : Handler Unit :=
  authorized w r true fun ss => do
    if w.config.capture.isNone then notFound
    else if ← call (.getCapture id ss.csrf) then h
    else notFound

/-- `captureLaunch`, of the session with an identifier. -/
def captureLaunch (r : Request) (id : Bytes) : Handler Unit :=
  ownedCapture w r id do
    match ← call (.capture (.ticket id)) with
    | .error e => call (.reply (.error 409 e))
    | .ok _ => call (.reply .json)

/-- The interface and the address in `userCapture` for the packets of AWG. -/
def captureAddress (user : User) : Bytes × Bytes :=
  match w.config.awg, user.awg with
  | some c, some p => if user.allows (str "awg") then (c.interface, p.address) else ([], [])
  | _, _ => ([], [])

/-- `StartUser` and `captureLaunch` in `userCapture`. If `captureAWG` fails, the
    session is in the table already. -/
def startUser (r : Request) (owner : Bytes) (iface ip : Bytes) : Handler Unit := do
  match ← call (.capture
      (.startUser owner r.values.id iface ip r.around.visited)) with
  | .error e => call (.reply (.error 409 e))
  | .ok id =>
    if iface = [] then captureLaunch w r id
    else
      match r.around.captureAWG with
      | none => captureLaunch w r id
      | some e => do
        let _ ← call (.capture (.record id (.stop "AWG capture failed")))
        call (.reply (.error 409 e))

/-- `userCapture` once it has found the user: `s` is its running capture, if any. -/
def userCaptureAction (r : Request) (owner : Session) (user : User) (s : Option Bytes) :
    Handler Unit := do
  if r.values.action = str "stop" then
    match s with
    | some id => do
      let _ ← call (.capture (.record id (.stop "stopped by teacher")))
      call (.reply .json)
    | none => call (.reply .json)
  else if r.values.action ≠ str "start" ∧ r.values.action ≠ str "link" then
    fail 400 "Unknown action"
  else
    match s with
    | some id => captureLaunch w r id
    | none =>
      if r.values.action = str "link" then fail 410 "Capture expired; start a new one"
      else if user.disabled ∨ user.expires < (← call .time) then
        fail 409 "User access disabled or expired"
      else startUser w r owner.csrf (captureAddress w user).1 (captureAddress w user).2

/-- `userCapture`. -/
def userCapture (r : Request) : Handler Unit :=
  serialized <| authorized w r true fun owner => do
    if w.config.capture.isNone then fail 503 "Capture disabled"
    else
      match ← call (.find r.values.id) with
      | none => notFound
      | some user =>
        match ← call (.userCapture r.values.id) with
        | none => userCaptureAction w r owner user none
        | some (id, csrf) =>
          if csrf ≠ owner.csrf then fail 403 "Capture belongs to another login"
          else userCaptureAction w r owner user (some id)

/-- `captureStart`. -/
def captureStart (r : Request) : Handler Unit :=
  authorized w r true fun s => do
    if w.config.capture.isNone then fail 503 "Capture disabled in server config"
    else
      match ← call (.capture (.start s.csrf r.values.kind [] r.around.startup)) with
      | .error e => call (.reply (.error 409 e))
      | .ok _ => call (.reply .json)

/-- `captureStop`. -/
def captureStop (r : Request) : Handler Unit :=
  ownedCapture w r r.values.id do
    let _ ← call (.capture (.record r.values.id (.stop "stopped")))
    call (.reply .json)

/-- `captureRedeem`, of the identifier and the ticket in its body. -/
def captureRedeem (body : Option (Bytes × Bytes)) : Handler Unit := do
  if w.config.capture.isNone then notFound
  else
    match body with
    | none => fail 400 "Invalid request"
    | some (id, ticket) =>
      match ← call (.capture (.redeem id ticket)) with
      | .error _ => fail 410 "Expired ticket"
      | .ok _ => call (.reply .json)

/-- `captureStream`, but for what it sends. -/
def captureStream (origin : Bytes) (id : Bytes) (token : Option Bytes) (around : Around) :
    Handler Unit := do
  if w.config.capture.isNone then notFound
  else if origin ≠ [] then fail 403 "Native helper required"
  else
    match token with
    | none => fail 401 "Token required"
    | some token =>
      match ← call (.capture (.attach id token)) with
      | .error _ => fail 403 "Capture unavailable"
      | .ok _ =>
        match around.peer with
        | some e => do
          let _ ← call (.capture (.record id (.stop "proxy peer unavailable")))
          call (.reply (.error 503 e))
        | none => do
          let _ ← call (.capture (.record id
            (.stop (if around.accepted then "viewer disconnected" else "attach failed"))))
          pure ()

/-- The requests. -/
inductive Query
  | loginPage (r : Request)
  | users (r : Request)
  | login (r : Request)
  | logout (r : Request)
  | add (r : Request)
  | rename (r : Request)
  | delete (r : Request)
  | protocols (r : Request)
  | toggle (r : Request)
  | qr (r : Request) (image : Option Error)
  | enroll (token : Option Bytes)
  | userCapture (r : Request)
  | captureStart (r : Request)
  | captureStop (r : Request)
  | captureLaunch (r : Request)
  | captureRedeem (body : Option (Bytes × Bytes))
  | captureStream (origin id : Bytes) (token : Option Bytes) (around : Around)

/-- `Handler`: the handler of a request. -/
def handler : Query → Handler Unit
  | .loginPage r => loginPage w r
  | .users r => users w r
  | .login r => login w r
  | .logout r => logout w r
  | .add r => add w r
  | .rename r => rename w r
  | .delete r => delete w r
  | .protocols r => protocols w r
  | .toggle r => toggle w r
  | .qr r image => qr w r image
  | .enroll token => enroll w token
  | .userCapture r => userCapture w r
  | .captureStart r => captureStart w r
  | .captureStop r => captureStop w r
  | .captureLaunch r => captureLaunch w r r.values.id
  | .captureRedeem body => captureRedeem w body
  | .captureStream origin id token around => captureStream w origin id token around

/-! ## The server -/

/-- What others than the handlers do with the store: the configuration of AWG, the
    statistics, and the connections. -/
inductive Elsewhere : Store → Store → Prop
  | configureAWG {s : Store} (c : Option AwgServer.Config)
      (seed : Except String AwgServer.IdentitySeed) (err : Option String)
      (assumed : ∀ c' ∈ c, w.assumptions.config c') : Elsewhere s (s.configureAWG c seed err).2
  | track {s : Store} (cs : ConnectionState) (transport peer : Bytes) (now : Time) (token : Bytes)
      (err : Option String) : Elsewhere s (s.track w.certs cs transport peer now token err).2
  | trackDone {s : Store} (id token : Bytes) (since : Time) (peer : Bytes) (err : Option String) :
      Elsewhere s (s.trackDone id token since peer err)
  | observeAWG {s : Store} (status : AwgServer.Status) (now : Time) (err : Option String) :
      Elsewhere s (s.observeAWG status now err)
  | register {s : Store} (cs : ConnectionState) (protocol token : Bytes) (close : ℕ) (now : Time) :
      Elsewhere s (s.registerProtocol w.certs cs protocol close now token).2
  | release {s : Store} (id token : Bytes) : Elsewhere s (s.release id token)

/-- What happens besides the handlers: time passes, others use the store, a capture
    records, ends or leaves the table, the captures are closed, or the server is
    restarted. -/
inductive Event
  | tick (t : Time)
  | store
  | record (id : Bytes) (e : DebugCapture.Session.Event)
  | drop (id : Bytes)
  | close
  | restart

/-- The captures at the start of the server. -/
def NewCapture (m : DebugCapture.Manager) : Prop :=
  match w.config.capture with
  | none => m.sessions = ∅
  | some c => DebugCapture.Manager.new c = .ok m

/-- The server just started. -/
structure Started (s : Web) : Prop where
  store : ∃ v, (Server.system w.certs w.assumptions).Reachable v ∧ v.process = .running s.store
  tables : ∃ file, s.tables = ⟨∅, ∅, 0, 0, file⟩ ∧
    ∀ f, file = some f → f.credential ≠ w.credential
  capture : NewCapture w s.capture
  mutex : s.userCaptureMu = none
  clock : 0 < s.now
  drawn : s.drawn = []

/-- What the environment does. -/
def background (s : Web) : Event → Web → Prop
  | .tick t, s' => s.now ≤ t ∧ s' = { s with now := t }
  | .store, s' => ∃ store, Elsewhere w s.store store ∧ s' = { s with store := store }
  | .record id e, s' => s' = { s with capture := s.capture.modify id (·.after e) }
  | .drop id, s' => s' = { s with capture := s.capture.drop id }
  | .close, s' => s' = { s with capture := s.capture.close }
  | .restart, _ => False

/-- A restart: what is left is in the files. -/
def restart (s : Web) (c : Event) (s' : Web) : Prop :=
  c = .restart ∧ ∃ env store capture, Store.openStore env s.store.file = .ok store ∧
    NewCapture w capture ∧
    s' = ⟨s.tables.restart w.credential s.now, store, capture, none, s.now, s.drawn⟩

/-- The web interface. -/
def machine : Machine Web Op Result Query Event where
  init := Started w
  program := handler w
  exec := exec w
  env := background w
  crash := restart w

/-- The labels of its steps. -/
abbrev Step := Label Op Result Query Event

/-! ## Following the handlers

The simplifier goes through a handler, and through the cases of a result. -/

theorem forall_except {ε α : Type*} {p : Except ε α → Prop} :
    (∀ r, p r) ↔ (∀ e, p (.error e)) ∧ ∀ a, p (.ok a) :=
  ⟨fun h => ⟨fun _ => h _, fun _ => h _⟩, fun h r => r.rec h.1 h.2⟩

theorem forall_loginResult {p : Tables.LoginResult → Prop} :
    (∀ r, p r) ↔ p .full ∧ p .failed ∧ ∀ l, p (.ok l) :=
  ⟨fun h => ⟨h _, h _, fun _ => h _⟩, fun h r => r.rec h.1 h.2.1 h.2.2⟩

namespace Following

attribute [scoped simp] handler users loginPage login logout add rename delete protocols toggle
  setProtocols revokeTickets qr enroll userCapture userCaptureAction startUser captureLaunch
  captureStart captureStop captureRedeem captureStream ownedCapture ifCapture serialized authorized
  fail notFound toUsers Option.forall forall_except forall_loginResult

end Following

/-! ## What the operations leave alone -/

/-- What an operation leaves alone. -/
structure Leaves (e : Op) (s s' : Web) : Prop where
  now : s'.now = s.now
  drawn : s.drawn ⊆ s'.drawn
  store : (∀ c, e ≠ .store c) → s'.store = s.store
  capture : (∀ c, e ≠ .capture c) → s'.capture = s.capture
  mutex : e ≠ .lock → e ≠ .unlock → s'.userCaptureMu = s.userCaptureMu

variable {w} {i : ℕ} {s s' : Web}

theorem exec_leaves {e : Op} {r : Result e} (h : exec w i e s r s') : Leaves e s s' := by
  have hs : s.drawn ⊆ s.drawn := List.Subset.refl _
  cases e with
  | lock =>
    obtain ⟨-, rfl⟩ := h
    exact ⟨rfl, hs, fun _ => rfl, fun _ => rfl, fun hne => absurd rfl hne⟩
  | unlock =>
    subst h
    exact ⟨rfl, hs, fun _ => rfl, fun _ => rfl, fun _ hne => absurd rfl hne⟩
  | dropTickets _ =>
    subst h
    exact ⟨rfl, hs, fun _ => rfl, fun _ => rfl, fun _ _ => rfl⟩
  | reply _ =>
    subst h
    exact ⟨rfl, hs, fun _ => rfl, fun _ => rfl, fun _ _ => rfl⟩
  | newSession _ =>
    obtain ⟨token, csrf, -, -, -, rfl⟩ := h
    exact ⟨rfl, by simp, fun _ => rfl, fun _ => rfl, fun _ _ => rfl⟩
  | issueTicket _ =>
    obtain ⟨-, -, rfl⟩ := h
    exact ⟨rfl, by simp, fun _ => rfl, fun _ => rfl, fun _ _ => rfl⟩
  | store c =>
    obtain ⟨-, -, rfl⟩ := h
    exact ⟨rfl, hs, fun hne => absurd rfl (hne c), fun _ => rfl, fun _ _ => rfl⟩
  | capture c =>
    obtain ⟨random, -, -, rfl⟩ := h
    exact ⟨rfl, by simp, fun _ => rfl, fun hne => absurd rfl (hne c), fun _ _ => rfl⟩
  | _ =>
    obtain ⟨-, rfl⟩ := h
    exact ⟨rfl, hs, fun _ => rfl, fun _ => rfl, fun _ _ => rfl⟩

/-- The environment draws nothing, leaves the tables and the mutex alone, and does not turn
    the clock back. -/
theorem background_leaves {c : Event} (h : background w s c s') : s'.drawn = s.drawn ∧
    s'.tables = s.tables ∧ s'.userCaptureMu = s.userCaptureMu ∧ s.now ≤ s'.now := by
  cases c with
  | tick _ =>
    obtain ⟨ht, rfl⟩ := h
    exact ⟨rfl, rfl, rfl, ht⟩
  | store =>
    obtain ⟨_, -, rfl⟩ := h
    exact ⟨rfl, rfl, rfl, le_rfl⟩
  | restart => exact h.elim
  | _ =>
    subst h
    exact ⟨rfl, rfl, rfl, le_rfl⟩

end Web

end QuicLab.Admin
