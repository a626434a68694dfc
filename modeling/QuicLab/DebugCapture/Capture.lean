import QuicLab.Go.Map
import QuicLab.Go.Net
import QuicLab.Go.Reader
import QuicLab.Go.Time

/-!
# Captures

The captures of traffic for debugging (package `debugcapture`): a `Session` is a
capture, recorded as a list of pcapng blocks, and a `Manager` keeps the sessions.

A viewer opens a session in two moves: the login that owns the session asks for a
*ticket* (`Manager.ticket`), which is redeemed for a *token* (`Manager.redeem`),
with which the viewer attaches (`Manager.attach`).

Each definition is a call, or the part of it that runs under the lock; the time
and the random value it reads are arguments. A session outlives its entry in
the manager's table, since others may still hold a pointer to it, so a session
that has left the table is kept here, and not `retained`.

* `Session.Later`: all that any call does to a session that exists: its owner
  and its user stay, and once it has ended, or left the table, it has so for good.
  `Session.Quiet` says in addition that no ticket and no token is given;
* `Manager.Moves`: no session is made, and those that exist become later ones.
  So it is with all calls but the next two;
* `Manager.Makes`: what `start` and `startUser` do when they succeed
  (`Manager.start_cases`, `Manager.startUser_cases`).
-/

namespace QuicLab.DebugCapture

open Go

/-- The configuration of captures. -/
structure Config where
  interface : Bytes
  firstPort : ℤ
  ports : Map Bytes (ℤ × ℤ)
  slots : ℤ
  tcpDump : Bytes

/-- Is the byte in the class `[a-zA-Z0-9_.:-]`? -/
def isInterfaceChar (c : UInt8) : Bool :=
  (97 ≤ c.toNat && c.toNat ≤ 122) || (65 ≤ c.toNat && c.toNat ≤ 90) || isDigit c ||
    c ∈ str "_.:-"

/-- Does the name match `^[a-zA-Z0-9_.:-]{1,64}$`? -/
def isInterface (name : Bytes) : Prop :=
  1 ≤ name.length ∧ name.length ≤ 64 ∧ name.all isInterfaceChar

instance (name : Bytes) : Decidable (isInterface name) := inferInstanceAs (Decidable (_ ∧ _ ∧ _))

/-- `Config.Validate`: the error, if any. -/
def Config.validate (c : Config) : Option Error :=
  if ¬ isInterface c.interface ∨ (c.firstPort ≠ 0 ∧ c.firstPort < 1024) ∨ c.slots < 1 ∨
      4 < c.slots ∨ 65536 < c.firstPort + c.slots ∨ c.tcpDump.head? ≠ some (ascii '/') then
    some (.new "capture requires interface, absolute tcpdump path, slots 1..4")
  else none

/-! ### Blocks -/

/-- `binary.LittleEndian.PutUintN` of `w` bytes. -/
def putUintLE (w n : ℕ) : Bytes := (putUint w n).reverse

/-- `block`: a pcapng block, the body padded to four bytes. -/
def block (kind : ℕ) (body : Bytes) : Bytes :=
  let n := (body.length + 3) / 4 * 4
  putUintLE 4 kind ++ putUintLE 4 (n + 12) ++ body ++ List.replicate (n - body.length) 0 ++
    putUintLE 4 (n + 12)

/-- `section`: the section header and the interface description. -/
def sectionHeader (link : ℕ) : Bytes :=
  block 0x0a0d0d0a
      (putUintLE 4 0x1a2b3c4d ++ putUintLE 2 1 ++ putUintLE 2 0 ++ putUintLE 8 (2 ^ 64 - 1)) ++
    block 1 (putUintLE 2 link ++ putUintLE 2 0 ++ putUintLE 4 262144)

/-- `secrets`: a block of TLS secrets. -/
def secrets (p : Bytes) : Bytes :=
  block 10 (putUintLE 4 0x544c534b ++ putUintLE 4 p.length ++ p)

/-! ### Sessions -/

/-- `MaxBytes`. -/
def maxBytes : ℕ := 32 * 2 ^ 20

/-- `Lifetime`. -/
def lifetime : Duration := 10 * 60 * second

/-- How long a session is kept after its end. -/
def retention : Duration := 5 * 60 * second

/-- How long a ticket is good for. -/
def ticketLifetime : Duration := 60 * second

/-- The state of a session: `"running"`, or why it ended. -/
inductive State
  | running
  | ended (reason : String)
  deriving DecidableEq

/-- A `Session`, with its `Info`. `retained` says whether it is in the table of
    its manager. -/
structure Session where
  owner : Bytes
  kind : Bytes
  user : Bytes
  state : State
  port : ℤ
  tcpPort : ℤ
  bytes : ℕ
  untilTime : Time
  blocks : List Bytes
  times : List Time
  keyLines : Bytes
  ticket : Bytes
  token : Bytes
  ticketUntil : Time
  connected : Bool
  retained : Bool

namespace Session

/-- A session at its start. -/
def fresh (owner kind user : Bytes) (port tcpPort : ℤ) (now : Time) : Session where
  owner := owner
  kind := kind
  user := user
  state := .running
  port := port
  tcpPort := tcpPort
  bytes := 0
  untilTime := now + lifetime
  blocks := []
  times := []
  keyLines := []
  ticket := []
  token := []
  ticketUntil := 0
  connected := false
  retained := true

/-- `emit`. -/
def emit (now : Time) (b : Bytes) (s : Session) : Option Error × Session :=
  if s.state ≠ .running then (some .EOF, s)
  else if maxBytes < s.bytes + b.length then
    (some .EOF, { s with state := .ended "capture limit (32 MiB)" })
  else
    (none,
      { s with
        blocks := s.blocks ++ [b]
        times := s.times ++ [now]
        bytes := s.bytes + b.length })

/-- The locked part of `Write`: whether the secrets were taken, so that a block
    of them is to be emitted. -/
def write (p : Bytes) (s : Session) : Bool × Session :=
  if s.state ≠ .running ∨ 2 ^ 20 < s.keyLines.length + p.length then (false, s)
  else (true, { s with keyLines := s.keyLines ++ p })

/-- `Stop`. -/
def stop (reason : String) (s : Session) : Session :=
  if s.state = .running then { s with state := .ended reason } else s

/-- What happens to a session as it records. -/
inductive Event
  | emit (now : Time) (b : Bytes)
  | write (p : Bytes)
  | stop (reason : String)

/-- The session after an event. -/
def after (s : Session) : Event → Session
  | .emit now b => (s.emit now b).2
  | .write p => (s.write p).2
  | .stop reason => s.stop reason

/-- `Ticket`. -/
def makeTicket (now : Time) (random : Bytes) (s : Session) : Except Error Bytes × Session :=
  if s.state ≠ .running ∨ s.connected then
    (.error (.new "capture stopped or already attached"), s)
  else (.ok random, { s with ticket := random, ticketUntil := now + ticketLifetime })

/-- What `Redeem` does to the session it has found. -/
def redeem (ticket : Bytes) (now : Time) (random : Bytes) (s : Session) :
    Except Error Bytes × Session :=
  if ticket = [] ∨ s.ticket ≠ ticket ∨ s.ticketUntil < now ∨ s.state ≠ .running then
    (.error (.new "expired launch ticket"), s)
  else (.ok random, { s with ticket := [], token := random })

/-- What `Attach` does to the session it has found. -/
def attach (token : Bytes) (s : Session) : Bool × Session :=
  if token = [] ∨ s.token ≠ token ∨ s.connected ∨ s.state ≠ .running then (false, s)
  else (true, { s with token := [], connected := true })

/-- What may become of a session: it keeps its owner and its user, and it does
    not run again, nor come back to the table, nor lose its viewer. -/
structure Later (s s' : Session) : Prop where
  owner : s'.owner = s.owner
  kind : s'.kind = s.kind
  user : s'.user = s.user
  running : s'.state = .running → s.state = .running
  retained : s'.retained = true → s.retained = true
  connected : s.connected = true → s'.connected = true

/-- A later session that has no new ticket, token or viewer. -/
structure Quiet (s s' : Session) : Prop extends Later s s' where
  ticket : s'.ticket = s.ticket ∧ s'.ticketUntil = s.ticketUntil ∨ s'.ticket = []
  token : s'.token = s.token ∨ s'.token = []
  unconnected : s'.connected = s.connected

theorem Later.refl (s : Session) : s.Later s := ⟨rfl, rfl, rfl, id, id, id⟩

theorem Later.trans {s s' s'' : Session} (h : s.Later s') (h' : s'.Later s'') : s.Later s'' :=
  ⟨h'.owner.trans h.owner, h'.kind.trans h.kind, h'.user.trans h.user, h.running ∘ h'.running,
    h.retained ∘ h'.retained, h'.connected ∘ h.connected⟩

theorem Quiet.refl (s : Session) : s.Quiet s := ⟨.refl s, .inl ⟨rfl, rfl⟩, .inl rfl, rfl⟩

theorem Quiet.trans {s s' s'' : Session} (h : s.Quiet s') (h' : s'.Quiet s'') : s.Quiet s'' := by
  refine ⟨h.toLater.trans h'.toLater, ?_, ?_, h'.unconnected.trans h.unconnected⟩
  · rcases h'.ticket with ⟨ht, hu⟩ | ht
    · rw [ht, hu]
      exact h.ticket
    · exact .inr ht
  · rcases h'.token with ht | ht
    · rw [ht]
      exact h.token
    · exact .inr ht

theorem quiet_emit (now : Time) (b : Bytes) (s : Session) : s.Quiet (s.emit now b).2 := by
  unfold emit
  split_ifs with hs
  · exact .refl s
  · exact ⟨⟨rfl, rfl, rfl, (fun h => by cases h), id, id⟩, .inl ⟨rfl, rfl⟩, .inl rfl, rfl⟩
  · exact ⟨⟨rfl, rfl, rfl, id, id, id⟩, .inl ⟨rfl, rfl⟩, .inl rfl, rfl⟩

theorem quiet_write (p : Bytes) (s : Session) : s.Quiet (s.write p).2 := by
  unfold write
  split_ifs
  · exact .refl s
  · exact ⟨⟨rfl, rfl, rfl, id, id, id⟩, .inl ⟨rfl, rfl⟩, .inl rfl, rfl⟩

theorem quiet_stop (reason : String) (s : Session) : s.Quiet (s.stop reason) := by
  unfold stop
  split_ifs
  · exact ⟨⟨rfl, rfl, rfl, (fun h => by cases h), id, id⟩, .inl ⟨rfl, rfl⟩, .inl rfl, rfl⟩
  · exact .refl s

/-- A session that was stopped does not run. -/
theorem stop_state_ne (reason : String) (s : Session) : (s.stop reason).state ≠ .running := by
  unfold stop
  split_ifs with hs
  · exact fun h => by cases h
  · exact hs

theorem quiet_after (s : Session) (e : Event) : s.Quiet (s.after e) := by
  cases e with
  | emit now b => exact quiet_emit now b s
  | write p => exact quiet_write p s
  | stop reason => exact quiet_stop reason s

theorem quiet_foldl_after (s : Session) (events : List Event) :
    s.Quiet (events.foldl after s) := by
  induction events generalizing s with
  | nil => exact .refl s
  | cons e events ih => exact (quiet_after s e).trans (ih (s.after e))

theorem retained_after (s : Session) (e : Event) : (s.after e).retained = s.retained := by
  cases e with
  | emit now b =>
    simp only [after, emit]
    split_ifs <;> rfl
  | write p =>
    simp only [after, write]
    split_ifs <;> rfl
  | stop reason =>
    simp only [after, stop]
    split_ifs <;> rfl

theorem retained_foldl_after (s : Session) (events : List Event) :
    (events.foldl after s).retained = s.retained := by
  induction events generalizing s with
  | nil => rfl
  | cons e events ih => exact (ih (s.after e)).trans (retained_after s e)

/-- A session as it is when it comes into the table. -/
structure Starts (owner kind user : Bytes) (s : Session) : Prop where
  owner : s.owner = owner
  kind : s.kind = kind
  user : s.user = user
  ticket : s.ticket = []
  token : s.token = []
  connected : s.connected = false
  retained : s.retained = true

/-- A fresh session after some events. -/
theorem starts_foldl_after (owner kind user : Bytes) (port tcpPort : ℤ) (now : Time)
    (events : List Event) :
    (events.foldl after (fresh owner kind user port tcpPort now)).Starts owner kind user := by
  have h := quiet_foldl_after (fresh owner kind user port tcpPort now) events
  refine ⟨h.owner, h.kind, h.user, ?_, ?_, h.unconnected, retained_foldl_after _ events⟩
  · exact h.ticket.elim And.left fun ht => ht
  · exact h.token.elim (fun ht => ht) fun ht => ht

theorem later_makeTicket (now : Time) (random : Bytes) (s : Session) :
    s.Later (s.makeTicket now random).2 := by
  unfold makeTicket
  split_ifs
  · exact .refl s
  · exact ⟨rfl, rfl, rfl, id, id, id⟩

theorem later_redeem (ticket : Bytes) (now : Time) (random : Bytes) (s : Session) :
    s.Later (s.redeem ticket now random).2 := by
  unfold redeem
  split_ifs
  · exact .refl s
  · exact ⟨rfl, rfl, rfl, id, id, id⟩

theorem later_attach (token : Bytes) (s : Session) : s.Later (s.attach token).2 := by
  unfold attach
  split_ifs
  · exact .refl s
  · exact ⟨rfl, rfl, rfl, id, id, fun _ => rfl⟩

end Session

/-! ### The manager -/

/-- A `Manager`: `sessions` has all the sessions made so far by their identifiers. -/
structure Manager where
  config : Config
  sessions : Map Bytes Session
  closing : Bool

namespace Manager

/-- `New`. -/
def new (c : Config) : Except Error Manager :=
  match c.validate with
  | some e => .error e
  | none => .ok ⟨c, ∅, false⟩

/-- `m.sessions[id]`. -/
def find (id : Bytes) (m : Manager) : Option Session :=
  (m.sessions.lookup id).filter (·.retained)

/-- The manager with each session changed by `f`. -/
def update (f : Bytes → Session → Session) (m : Manager) : Manager :=
  { m with sessions := m.sessions.update f }

/-- The manager with one session changed. -/
def modify (id : Bytes) (f : Session → Session) (m : Manager) : Manager :=
  m.update fun id' s => if id' = id then f s else s

/-- The length of the table. -/
def len (m : Manager) : ℕ := m.sessions.count fun s => s.retained

/-- The number of sessions of the table that are running. -/
def active (m : Manager) : ℕ := m.sessions.count fun s => s.retained ∧ s.state = .running

/-- The loop that deletes the sessions long expired, as far as it has `visited` them. -/
def prune (now : Time) (visited : Bytes → Bool) (m : Manager) : Manager :=
  m.update fun id s =>
    if visited id ∧ s.untilTime + retention < now then { s with retained := false } else s

/-- The first port from `FirstPort` on that no running session uses; 0 if there is none. -/
def freePort (m : Manager) : ℤ :=
  (((List.range m.config.slots.toNat).map fun i => m.config.firstPort + i).find? fun p =>
    ¬ m.sessions.Any fun _ s => s.retained ∧ s.state = .running ∧ s.port = p).getD 0

/-- The ports of a capture in `Start`: those of the configuration, or a free one. -/
def choosePorts (kind : Bytes) (m : Manager) : Except Error (ℤ × ℤ) :=
  let pair := (m.config.ports.lookup kind).getD (0, 0)
  let port := if m.config.firstPort = 0 then pair.1 else m.freePort
  let tcpPort := if m.config.firstPort = 0 then pair.2 else port
  if m.config.firstPort = 0 ∧ m.config.slots ≤ m.active then
    .error (.new "all capture slots are busy")
  else if port = 0 ∨ tcpPort = 0 then .error (.new "all debug listeners are busy")
  else .ok (port, tcpPort)

/-- What comes of starting `tcpdump` and the listener of a capture: a failure, or
    it is ready, having emitted the header, and events have happened since. -/
inductive Startup
  | failed (e : Error)
  | ready (link : ℕ) (now : Time) (events : List Session.Event)

/-- The end of `Start`, when a slot is found for the session. -/
def launch (s : Session) (startup : Startup) (id : Bytes) (m : Manager) :
    Except Error Bytes × Manager :=
  match startup with
  | .failed e => (.error e, m)
  | .ready link now events =>
    let s := events.foldl .after (s.emit now (sectionHeader link)).2
    (.ok id, { m with sessions := m.sessions.insert id s })

/-- `Start`, which holds the lock to its end. -/
def start (owner kind user : Bytes) (startup : Startup) (now : Time) (id : Bytes) (m : Manager) :
    Except Error Bytes × Manager :=
  if m.closing then (.error (.new "server stopping"), m)
  else if user ≠ [] then (.error (.new "use dedicated per-user capture"), m)
  else if kind ≠ str "echo" ∧ kind ≠ str "vpn" then (.error (.new "unknown capture mode"), m)
  else
    let m := m.prune now fun _ => true
    if 8 ≤ m.len then (.error (.new "capture retention limit; wait for expiry"), m)
    else
      match m.choosePorts kind with
      | .error e => (.error e, m)
      | .ok (port, tcpPort) => m.launch (.fresh owner kind user port tcpPort now) startup id

/-- `StartUser` up to where it releases the lock. If a capture of the user is
    running, the loop ends there, and it has `visited` only some sessions. -/
def startUser (owner user iface ip : Bytes) (visited : Bytes → Bool) (now : Time) (id : Bytes)
    (m : Manager) : Except Error Bytes × Manager :=
  if user = [] then (.error (.new "user required"), m)
  else if iface ≠ [] ∧ ¬ (isInterface iface ∧ (parseIP ip).any isTo4) then
    (.error (.new "invalid AWG capture interface/address"), m)
  else if (m.prune now fun _ => true).sessions.Any fun _ s =>
      s.retained ∧ s.state = .running ∧ s.user = user then
    (.error (.new "захват этого пользователя уже включён"), m.prune now visited)
  else
    let m := m.prune now fun _ => true
    if m.closing ∨ m.config.slots ≤ m.active ∨ 8 ≤ m.len then
      (.error (.new "нет свободного слота захвата"), m)
    else
      let s := Session.fresh owner (str "user") user 0 0 now
      (.ok id, { m with sessions := m.sessions.insert id (s.emit now (sectionHeader 101)).2 })

/-- `Get`. -/
def get (id owner : Bytes) (now : Time) (m : Manager) : Option Session :=
  (m.find id).filter fun s => s.owner = owner ∧ ¬ s.untilTime + retention < now

/-- Is `id` a session that `UserCapture` may return? -/
def IsUserCapture (user : Bytes) (m : Manager) (id : Bytes) : Prop :=
  ∃ s, m.find id = some s ∧ s.user = user ∧ s.kind = str "user" ∧ s.state = .running

/-- `Session.Ticket` of a session. -/
def ticket (id : Bytes) (now : Time) (random : Bytes) (m : Manager) : Except Error Bytes × Manager :=
  match m.sessions.lookup id with
  | none => (.error (.new "unknown capture"), m)
  | some s => ((s.makeTicket now random).1, m.modify id fun s => (s.makeTicket now random).2)

/-- `Redeem`. -/
def redeem (id ticket : Bytes) (now : Time) (random : Bytes) (m : Manager) :
    Except Error Bytes × Manager :=
  match m.find id with
  | none => (.error (.new "unknown capture"), m)
  | some s =>
    ((s.redeem ticket now random).1, m.modify id fun s => (s.redeem ticket now random).2)

/-- `Attach`: whether there is a session to return. -/
def attach (id token : Bytes) (m : Manager) : Bool × Manager :=
  match m.find id with
  | none => (false, m)
  | some s => ((s.attach token).1, m.modify id fun s => (s.attach token).2)

/-- `StopOwner`. -/
def stopOwner (owner : Bytes) (m : Manager) : Manager :=
  m.update fun _ s =>
    if s.retained ∧ s.owner = owner then { s.stop "logged out" with ticket := [], token := [] }
    else s

/-- `StopUser`. -/
def stopUser (user : Bytes) (m : Manager) : Manager :=
  m.update fun _ s => if s.retained ∧ s.user = user then s.stop "user revoked" else s

/-- The deletion of a session that was set up when it was made. -/
def drop (id : Bytes) (m : Manager) : Manager :=
  m.modify id fun s => { s with retained := false }

/-- The end of the server's context. -/
def close (m : Manager) : Manager :=
  { m.update fun _ s => if s.retained then s.stop "server stopped" else s with closing := true }

end Manager

/-- A call to a manager, or to one of its sessions, that changes them. -/
inductive Call
  | start (owner kind user : Bytes) (startup : Manager.Startup)
  | startUser (owner user iface ip : Bytes) (visited : Bytes → Bool)
  | record (id : Bytes) (e : Session.Event)
  | ticket (id : Bytes)
  | redeem (id ticket : Bytes)
  | attach (id token : Bytes)
  | stopOwner (owner : Bytes)
  | stopUser (user : Bytes)
  | drop (id : Bytes)
  | close

/-- The session that may get a ticket, a token or a viewer in a call. -/
def Call.touched : Call → Option Bytes
  | .ticket id => some id
  | .redeem id _ => some id
  | .attach id _ => some id
  | _ => none

namespace Manager

/-- A call: what it returns, and the manager after it. A session that is
    returned is given by its identifier, and a nil session is an error. -/
def apply (c : Call) (now : Time) (random : Bytes) (m : Manager) : Except Error Bytes × Manager :=
  match c with
  | .start owner kind user startup => m.start owner kind user startup now random
  | .startUser owner user iface ip visited => m.startUser owner user iface ip visited now random
  | .record id e => (.ok [], m.modify id (·.after e))
  | .ticket id => m.ticket id now random
  | .redeem id ticket => m.redeem id ticket now random
  | .attach id token =>
    (if (m.attach id token).1 then .ok id else .error (.new "nil"), (m.attach id token).2)
  | .stopOwner owner => (.ok [], m.stopOwner owner)
  | .stopUser user => (.ok [], m.stopUser user)
  | .drop id => (.ok [], m.drop id)
  | .close => (.ok [], m.close)

/-! ### What the calls do -/

/-- No session is made, and those that exist become later ones. None but the
    session `t` gets a ticket, a token or a viewer. -/
structure Moves (t : Option Bytes) (m m' : Manager) : Prop where
  config : m'.config = m.config
  old : ∀ id s', m'.sessions.lookup id = some s' →
    ∃ s, m.sessions.lookup id = some s ∧ s.Later s' ∧ (t ≠ some id → s.Quiet s')
  kept : ∀ id s, m.sessions.lookup id = some s →
    ∃ s', m'.sessions.lookup id = some s' ∧ s.Later s'
  len_le : m'.len ≤ m.len
  active_le : m'.active ≤ m.active

theorem lookup_update (f : Bytes → Session → Session) (m : Manager) (id : Bytes) :
    (m.update f).sessions.lookup id = (m.sessions.lookup id).map (f id) :=
  Map.lookup_update f m.sessions id

theorem moves_update {t : Option Bytes} {f : Bytes → Session → Session}
    (hlater : ∀ id s, Session.Later s (f id s))
    (hquiet : ∀ id s, t ≠ some id → Session.Quiet s (f id s)) (m : Manager) :
    m.Moves t (m.update f) where
  config := rfl
  old id s' h := by
    rw [lookup_update, Option.map_eq_some_iff] at h
    obtain ⟨s, hs, rfl⟩ := h
    exact ⟨s, hs, hlater id s, hquiet id s⟩
  kept id s h := ⟨f id s, by rw [lookup_update, h, Option.map_some], hlater id s⟩
  len_le := Map.count_update_le (fun id s h => (hlater id s).retained h) m.sessions
  active_le := Map.count_update_le
    (fun id s h => ⟨(hlater id s).retained h.1, (hlater id s).running h.2⟩) m.sessions

theorem Moves.refl (t : Option Bytes) (m : Manager) : m.Moves t m :=
  ⟨rfl, fun _ s h => ⟨s, h, .refl s, fun _ => .refl s⟩, fun _ s h => ⟨s, h, .refl s⟩, le_rfl, le_rfl⟩

theorem moves_of_quiet {f : Bytes → Session → Session} (hf : ∀ id s, Session.Quiet s (f id s))
    (m : Manager) : m.Moves none (m.update f) :=
  moves_update (fun id s => (hf id s).toLater) (fun id s _ => hf id s) m

/-- Only the session that is modified may get something. -/
theorem moves_modify (id : Bytes) {f : Session → Session} (hf : ∀ s, Session.Later s (f s))
    (m : Manager) : m.Moves (some id) (m.modify id f) := by
  refine moves_update (fun id' s => ?_) (fun id' s hne => ?_) m
  · split_ifs
    · exact hf s
    · exact .refl s
  · rw [if_neg fun h => hne (congrArg some h.symm)]
    exact .refl s

theorem moves_prune (now : Time) (visited : Bytes → Bool) (m : Manager) :
    m.Moves none (m.prune now visited) := by
  refine moves_of_quiet (fun id s => ?_) m
  split_ifs
  · exact ⟨⟨rfl, rfl, rfl, fun h => h, (fun h => by cases h), fun h => h⟩, .inl ⟨rfl, rfl⟩, .inl rfl,
      rfl⟩
  · exact .refl s

theorem moves_ticket (id : Bytes) (now : Time) (random : Bytes) (m : Manager) :
    m.Moves (some id) (m.ticket id now random).2 := by
  unfold ticket
  cases m.sessions.lookup id with
  | none => exact .refl _ m
  | some s => exact moves_modify id (Session.later_makeTicket now random) m

theorem moves_redeem (id ticket : Bytes) (now : Time) (random : Bytes) (m : Manager) :
    m.Moves (some id) (m.redeem id ticket now random).2 := by
  unfold redeem
  cases m.find id with
  | none => exact .refl _ m
  | some s => exact moves_modify id (Session.later_redeem ticket now random) m

theorem moves_attach (id token : Bytes) (m : Manager) :
    m.Moves (some id) (m.attach id token).2 := by
  unfold attach
  cases m.find id with
  | none => exact .refl _ m
  | some s => exact moves_modify id (Session.later_attach token) m

theorem moves_record (id : Bytes) (e : Session.Event) (m : Manager) :
    m.Moves none (m.modify id (·.after e)) := by
  refine moves_of_quiet (fun id' s => ?_) m
  split_ifs
  · exact s.quiet_after e
  · exact .refl s

theorem moves_stopOwner (owner : Bytes) (m : Manager) : m.Moves none (m.stopOwner owner) := by
  refine moves_of_quiet (fun id s => ?_) m
  split_ifs
  · have h := Session.quiet_stop "logged out" s
    exact ⟨⟨h.owner, h.kind, h.user, h.running, h.retained, h.connected⟩, .inr rfl, .inr rfl,
      h.unconnected⟩
  · exact .refl s

theorem moves_stopUser (user : Bytes) (m : Manager) : m.Moves none (m.stopUser user) := by
  refine moves_of_quiet (fun id s => ?_) m
  split_ifs
  · exact Session.quiet_stop "user revoked" s
  · exact .refl s

theorem moves_drop (id : Bytes) (m : Manager) : m.Moves none (m.drop id) := by
  refine moves_of_quiet (fun id' s => ?_) m
  split_ifs
  · exact ⟨⟨rfl, rfl, rfl, fun h => h, (fun h => by cases h), fun h => h⟩, .inl ⟨rfl, rfl⟩, .inl rfl,
      rfl⟩
  · exact .refl s

theorem moves_close (m : Manager) : m.Moves none m.close := by
  have h : m.Moves none (m.update fun _ s => if s.retained then s.stop "server stopped" else s) := by
    refine moves_of_quiet (fun id s => ?_) m
    split_ifs
    · exact Session.quiet_stop "server stopped" s
    · exact .refl s
  exact ⟨h.config, h.old, h.kept, h.len_le, h.active_le⟩

/-- The sessions that exist become later ones, and a session `s` is made under
    the identifier `id`, for which there was a slot. -/
def Makes (m : Manager) (id : Bytes) (s : Session) (m' : Manager) : Prop :=
  ∃ rest : Manager, m.Moves none rest ∧ rest.len < 8 ∧
    (m.config.firstPort = 0 → rest.active < m.config.slots) ∧
    m' = { rest with sessions := rest.sessions.insert id s }

theorem active_lt_of_choosePorts {kind : Bytes} {m : Manager} {ports : ℤ × ℤ}
    (h : m.choosePorts kind = .ok ports) (hfirst : m.config.firstPort = 0) :
    m.active < m.config.slots := by
  by_contra hactive
  rw [choosePorts, if_pos ⟨hfirst, not_lt.1 hactive⟩] at h
  cases h

theorem launch_cases (owner kind user : Bytes) (port tcpPort : ℤ) (now : Time) (startup : Startup)
    (id : Bytes) (m : Manager) :
    (∃ e, m.launch (.fresh owner kind user port tcpPort now) startup id = (.error e, m)) ∨
    ∃ s, s.Starts owner kind user ∧
      m.launch (.fresh owner kind user port tcpPort now) startup id =
        (.ok id, { m with sessions := m.sessions.insert id s }) := by
  cases startup with
  | failed e => exact .inl ⟨e, rfl⟩
  | ready link t events =>
    refine .inr ⟨_, ?_, rfl⟩
    exact Session.starts_foldl_after owner kind user port tcpPort now
      (.emit t (sectionHeader link) :: events)

/-- `Start` fails, or it makes a session, not for a user. -/
theorem start_cases (owner kind user : Bytes) (startup : Startup) (now : Time) (id : Bytes)
    (m : Manager) :
    (∃ e, (m.start owner kind user startup now id).1 = .error e ∧
      m.Moves none (m.start owner kind user startup now id).2) ∨
    ((m.start owner kind user startup now id).1 = .ok id ∧ user = [] ∧ kind ≠ str "user" ∧
      ∃ s, s.Starts owner kind user ∧ m.Makes id s (m.start owner kind user startup now id).2) := by
  have hp := moves_prune now (fun _ => true) m
  unfold start
  split_ifs with hclosing huser hkind
  · exact .inl ⟨_, rfl, .refl none m⟩
  · exact .inl ⟨_, rfl, .refl none m⟩
  · exact .inl ⟨_, rfl, .refl none m⟩
  have hkind' : kind ≠ str "user" := by
    rintro rfl
    exact hkind ⟨by decide, by decide⟩
  dsimp only
  split_ifs with hlen
  · exact .inl ⟨_, rfl, hp⟩
  cases hports : (m.prune now fun _ => true).choosePorts kind with
  | error e => exact .inl ⟨e, rfl, hp⟩
  | ok ports =>
    dsimp only
    rcases launch_cases owner kind user ports.1 ports.2 now startup id
      (m.prune now fun _ => true) with ⟨e, he⟩ | ⟨s, hs, he⟩
    · rw [he]
      exact .inl ⟨e, rfl, hp⟩
    · rw [he]
      exact .inr ⟨rfl, not_not.1 huser, hkind', s, hs, m.prune now fun _ => true, hp, not_le.1 hlen,
        active_lt_of_choosePorts hports, rfl⟩

/-- `StartUser` fails, or it makes a session for the user, of whom no other is running. -/
theorem startUser_cases (owner user iface ip : Bytes) (visited : Bytes → Bool) (now : Time)
    (id : Bytes) (m : Manager) :
    (∃ e, (m.startUser owner user iface ip visited now id).1 = .error e ∧
      m.Moves none (m.startUser owner user iface ip visited now id).2) ∨
    ((m.startUser owner user iface ip visited now id).1 = .ok id ∧ user ≠ [] ∧
      (∀ id' s', id' ≠ id → (m.startUser owner user iface ip visited now id).2.find id' = some s' →
        s'.user = user → s'.state ≠ .running) ∧
      ∃ s, s.Starts owner (str "user") user ∧
        m.Makes id s (m.startUser owner user iface ip visited now id).2) := by
  have hp := moves_prune now (fun _ => true) m
  unfold startUser
  split_ifs with huser hiface hany
  · exact .inl ⟨_, rfl, .refl none m⟩
  · exact .inl ⟨_, rfl, .refl none m⟩
  · exact .inl ⟨_, rfl, moves_prune now visited m⟩
  dsimp only
  split_ifs with hfull
  · exact .inl ⟨_, rfl, hp⟩
  simp only [not_or, not_le] at hfull
  refine .inr ⟨rfl, huser, fun id' s' hne hs' hu hrun => hany ?_, _, ?_,
    m.prune now fun _ => true, hp, hfull.2.2, fun _ => hfull.2.1, rfl⟩
  · obtain ⟨hl, hr⟩ := Option.filter_eq_some_iff.1 hs'
    rw [Map.lookup_insert', if_neg hne] at hl
    exact Map.any_iff.2 ⟨id', s', hl, hr, hrun, hu⟩
  · exact Session.starts_foldl_after owner (str "user") user 0 0 now [.emit now (sectionHeader 101)]

/-- A call makes no session, or it is a `Start` or a `StartUser` that succeeds. -/
theorem apply_cases (c : Call) (now : Time) (random : Bytes) (m : Manager) :
    m.Moves c.touched (m.apply c now random).2 ∨
    ∃ owner kind user s, s.Starts owner kind user ∧ (m.apply c now random).1 = .ok random ∧
      m.Makes random s (m.apply c now random).2 ∧
      ((∃ startup, c = .start owner kind user startup) ∨
        ∃ iface ip visited, c = .startUser owner user iface ip visited ∧ kind = str "user") := by
  cases c with
  | start owner kind user startup =>
    rcases start_cases owner kind user startup now random m with ⟨_, _, h⟩ | ⟨h, _, _, s, hs, hm⟩
    · exact .inl h
    · exact .inr ⟨owner, kind, user, s, hs, h, hm, .inl ⟨startup, rfl⟩⟩
  | startUser owner user iface ip visited =>
    rcases startUser_cases owner user iface ip visited now random m with
      ⟨_, _, h⟩ | ⟨h, _, _, s, hs, hm⟩
    · exact .inl h
    · exact .inr ⟨owner, _, user, s, hs, h, hm, .inr ⟨iface, ip, visited, rfl, rfl⟩⟩
  | record id e => exact .inl (moves_record id e m)
  | ticket id => exact .inl (moves_ticket id now random m)
  | redeem id ticket => exact .inl (moves_redeem id ticket now random m)
  | attach id token => exact .inl (moves_attach id token m)
  | stopOwner owner => exact .inl (moves_stopOwner owner m)
  | stopUser user => exact .inl (moves_stopUser user m)
  | drop id => exact .inl (moves_drop id m)
  | close => exact .inl (moves_close m)

end Manager

end QuicLab.DebugCapture
