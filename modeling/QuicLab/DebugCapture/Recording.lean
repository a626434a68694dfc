import QuicLab.DebugCapture.Stream

/-!
# Recording under any interleaving

A capture is written to from many sides. `tcpdump`'s output and the reconstructed
packets are emitted; the TLS listeners write their secrets, through `serverKeys.Write`,
which selects the sessions under the manager's lock and writes to them afterwards, one by
one; and each of these writes takes the keys under one lock and emits their block under
another. Meanwhile captures are started and stopped, and viewers read.

* `Recordings`: the manager, the writes under way, and the viewers;
* `Recordings.step`: a step of any of them;
* `Call.effect`: what a call does to one session, and that it depends on this session,
  and on what the call returns, only (`lookup_apply`);
* `Recordings.step_session`: all that a step does to a session.

`recorded_bounded` says that what is recorded is accounted for and bounded, and frozen
from the end of the session on.
-/

namespace QuicLab.DebugCapture

open Go

/-! ### Packets -/

/-- The block of a packet with a comment, as `packetAt` makes it. -/
def commentedBlock (p comment : Bytes) (us : ℕ) : Bytes :=
  block 6 (putUintLE 4 0 ++ putUintLE 4 (us / 2 ^ 32) ++ putUintLE 4 us ++ putUintLE 4 p.length ++
    putUintLE 4 p.length ++ p ++ List.replicate ((p.length + 3) / 4 * 4 - p.length) 0 ++
    (putUintLE 2 1 ++ putUintLE 2 comment.length ++ comment ++
      List.replicate ((comment.length + 3) / 4 * 4 - comment.length) 0) ++ [0, 0, 0, 0])

/-- `packetAt`, at the time `now`. -/
def Session.packetAt (p comment : Bytes) (us : ℕ) (now : Time) (s : Session) : Session :=
  if p.length = 0 ∨ 65535 < p.length then s else (s.emit now (commentedBlock p comment us)).2

/-! ### The system -/

/-- A call of `serverKeys.Write`, or of `Session.Write`: what it writes, the sessions it
    still has to write to, and the one whose block of secrets it has to emit. -/
structure KeyWrite where
  p : Bytes
  targets : List Bytes
  emitting : Option Bytes

/-- The manager, the writes of secrets in the order in which they were begun, and for each
    session its viewer and the messages sent. -/
structure Recordings where
  manager : Manager
  writes : List KeyWrite
  viewers : Bytes → Viewer × List Message

/-- A session that a listener on the port writes its secrets to. -/
def Session.Hears (port : ℤ) (udp : Bool) (s : Session) : Prop :=
  s.user = [] ∧ s.state = .running ∧ (udp = true ∧ s.port = port ∨ udp = false ∧ s.tcpPort = port)

instance (port : ℤ) (udp : Bool) (s : Session) : Decidable (s.Hears port udp) :=
  inferInstanceAs (Decidable (_ ∧ _ ∧ _))

/-- The sessions that `serverKeys.Write` selects. -/
def Manager.listening (port : ℤ) (udp : Bool) (m : Manager) : Multiset Bytes :=
  (m.sessions.entries.filter fun e => e.2.retained ∧ e.2.Hears port udp).map Sigma.fst

/-- The ports that a call finds for a new session. -/
def Call.ports (c : Call) (now : Time) (m : Manager) : ℤ × ℤ :=
  match c with
  | .start _ kind _ _ =>
    match (m.prune now fun _ => true).choosePorts kind with
    | .ok ports => ports
    | .error _ => (0, 0)
  | _ => (0, 0)

/-- Does the event write secrets? -/
def Session.Event.isWrite : Session.Event → Bool
  | .write _ => true
  | _ => false

/-- The calls that are steps of their own. Identifiers are drawn at random, and are taken
    to be new; nobody writes to a session that is not in the table yet; and `Write` is
    two steps, below. -/
def Call.Allowed (random : Bytes) (m : Manager) : Call → Prop
  | .start _ _ _ (.ready _ _ events) =>
    m.sessions.lookup random = none ∧ ∀ e ∈ events, e.isWrite = false
  | .startUser _ _ _ _ _ => m.sessions.lookup random = none
  | .record _ e => e.isWrite = false
  | _ => True

instance (random : Bytes) (m : Manager) : (c : Call) → Decidable (c.Allowed random m)
  | .start _ _ _ (.ready _ _ _) => inferInstanceAs (Decidable (_ ∧ _))
  | .start _ _ _ (.failed _) => .isTrue trivial
  | .startUser _ _ _ _ _ => inferInstanceAs (Decidable (_ = _))
  | .record _ _ => inferInstanceAs (Decidable (_ = _))
  | .ticket _ => .isTrue trivial
  | .redeem _ _ => .isTrue trivial
  | .attach _ _ => .isTrue trivial
  | .stopOwner _ => .isTrue trivial
  | .stopUser _ => .isTrue trivial
  | .drop _ => .isTrue trivial
  | .close => .isTrue trivial

/-- A step. A call comes with what it returns and the ports that it finds. -/
inductive Recordings.Label
  | call (c : Call) (now : Time) (random : Bytes) (result : Except Error Bytes) (ports : ℤ × ℤ)
  | packetAt (id p comment : Bytes) (us : ℕ) (now : Time)
  /-- `serverKeys.Write` selects the sessions, in some order. -/
  | keyLog (port : ℤ) (udp : Bool) (p : Bytes) (selected : List Bytes)
  /-- `Session.Write` is called. -/
  | write (id p : Bytes)
  /-- The write `i` goes on to the session `id`, with the first half of its `Write`. -/
  | keyWrite (i : ℕ) (id p : Bytes)
  /-- The write `i` emits the block of secrets. -/
  | keyEmit (i : ℕ) (id : Bytes) (now : Time)
  /-- The viewer of a session takes a step. -/
  | view (id : Bytes) (a : Act)

/-- Does the session record in the step? -/
def Act.isRecord : Act → Bool
  | .record _ => true
  | _ => false

namespace Recordings

/-- The session `id`. -/
def session (id : Bytes) (w : Recordings) : Option Session := w.manager.sessions.lookup id

/-- A session and its viewer. -/
def stream (id : Bytes) (s : Session) (w : Recordings) : Stream :=
  ⟨s, (w.viewers id).1, (w.viewers id).2⟩

/-- The step `a`, where it can be taken. -/
def step (w : Recordings) (a : Label) : Option Recordings :=
  match a with
  | .call c now random result ports =>
    if c.Allowed random w.manager ∧ (w.manager.apply c now random).1 = result ∧
        c.ports now w.manager = ports then
      some { w with manager := (w.manager.apply c now random).2 }
    else none
  | .packetAt id p comment us now =>
    some { w with manager := w.manager.modify id (Session.packetAt p comment us now) }
  | .keyLog port udp p selected =>
    if (selected : Multiset Bytes) = w.manager.listening port udp then
      some { w with writes := w.writes ++ [⟨p, selected, none⟩] }
    else none
  | .write id p => some { w with writes := w.writes ++ [⟨p, [id], none⟩] }
  | .keyWrite i id p =>
    match w.writes[i]?, w.session id with
    | some ⟨q, id' :: targets, none⟩, some s =>
      if q = p ∧ id' = id then
        some
          { w with
            manager := w.manager.modify id fun s => (s.write p).2
            writes := w.writes.set i ⟨p, targets, if (s.write p).1 then some id else none⟩ }
      else none
    | _, _ => none
  | .keyEmit i id now =>
    match w.writes[i]? with
    | some ⟨p, targets, some id'⟩ =>
      if id' = id then
        some
          { w with
            manager := w.manager.modify id fun s => (s.emit now (secrets p)).2
            writes := w.writes.set i ⟨p, targets, none⟩ }
      else none
    | _ => none
  | .view id a =>
    match w.session id with
    | none => none
    | some s =>
      if s.connected = true ∧ a.isRecord = false then
        ((w.stream id s).act a).map fun t =>
          { w with viewers := Function.update w.viewers id (t.viewer, t.sent) }
      else none

/-- A manager at its start. -/
def new (c : Config) : Recordings := ⟨⟨c, ∅, false⟩, [], fun _ => (.start, [])⟩

/-- All interleavings. -/
def system : System Recordings Label where
  init w := ∃ c, w = new c
  step w a w' := w.step a = some w'

end Recordings

/-! ### What a call does to one session -/

/-- The session, when the loops that delete sessions come to it. -/
def Session.pruned (now : Time) (s : Session) : Session :=
  if s.untilTime + retention < now then { s with retained := false } else s

/-- What `Start` does to the session `id`, when it returns `result`. -/
def startEffect (owner kind user : Bytes) (startup : Manager.Startup) (now : Time) (random : Bytes)
    (result : Except Error Bytes) (ports : ℤ × ℤ) (closing : Bool) (id : Bytes)
    (o : Option Session) : Option Session :=
  if closing = true ∨ user ≠ [] ∨ kind ≠ str "echo" ∧ kind ≠ str "vpn" then o
  else
    match result, startup with
    | .ok _, .ready link t events =>
      if id = random then
        some (events.foldl .after
          ((Session.fresh owner kind user ports.1 ports.2 now).emit t (sectionHeader link)).2)
      else o.map (Session.pruned now)
    | _, _ => o.map (Session.pruned now)

/-- What `StartUser` does to the session `id`, when it returns `result`. -/
def startUserEffect (owner user iface ip : Bytes) (visited : Bytes → Bool) (now : Time)
    (random : Bytes) (result : Except Error Bytes) (id : Bytes) (o : Option Session) :
    Option Session :=
  if user = [] ∨ iface ≠ [] ∧ ¬ (isInterface iface ∧ (parseIP ip).any isTo4) then o
  else
    match result with
    | .ok _ =>
      if id = random then
        some ((Session.fresh owner (str "user") user 0 0 now).emit now (sectionHeader 101)).2
      else o.map (Session.pruned now)
    | .error e =>
      o.map fun s =>
        if e = .new "захват этого пользователя уже включён" ∧ visited id = false then s
        else s.pruned now

/-- What a call that returns `result` does to the session `id`. -/
def Call.effect (c : Call) (now : Time) (random : Bytes) (result : Except Error Bytes)
    (ports : ℤ × ℤ) (closing : Bool) (id : Bytes) (o : Option Session) : Option Session :=
  match c with
  | .start owner kind user startup =>
    startEffect owner kind user startup now random result ports closing id o
  | .startUser owner user iface ip visited =>
    startUserEffect owner user iface ip visited now random result id o
  | .record id' e => o.map fun s => if id = id' then s.after e else s
  | .ticket id' => o.map fun s => if id = id' then (s.makeTicket now random).2 else s
  | .redeem id' t =>
    o.map fun s => if id = id' ∧ s.retained = true then (s.redeem t now random).2 else s
  | .attach id' token =>
    o.map fun s => if id = id' ∧ s.retained = true then (s.attach token).2 else s
  | .stopOwner owner =>
    o.map fun s =>
      if s.retained ∧ s.owner = owner then { s.stop "logged out" with ticket := [], token := [] }
      else s
  | .stopUser user => o.map fun s => if s.retained ∧ s.user = user then s.stop "user revoked" else s
  | .drop id' => o.map fun s => if id = id' then { s with retained := false } else s
  | .close => o.map fun s => if s.retained then s.stop "server stopped" else s

namespace Manager

theorem lookup_modify (id' : Bytes) (f : Session → Session) (m : Manager) (id : Bytes) :
    (m.modify id' f).sessions.lookup id =
      (m.sessions.lookup id).map fun s => if id = id' then f s else s := by
  rw [modify, lookup_update]

theorem lookup_prune (now : Time) (visited : Bytes → Bool) (m : Manager) (id : Bytes) :
    (m.prune now visited).sessions.lookup id =
      (m.sessions.lookup id).map fun s => if visited id = true then s.pruned now else s := by
  rw [prune, lookup_update]
  congr 1
  funext s
  by_cases hv : visited id = true
  · rw [if_pos hv, Session.pruned]
    simp only [hv, true_and]
  · rw [if_neg hv, if_neg fun h => hv h.1]

theorem lookup_prune_all (now : Time) (m : Manager) (id : Bytes) :
    (m.prune now fun _ => true).sessions.lookup id =
      (m.sessions.lookup id).map (Session.pruned now) := by
  rw [lookup_prune]
  rfl

/-- Nothing but the session that is found is changed. -/
theorem lookup_find_modify {id' : Bytes} {f : Session → Session} {m : Manager} {t : Session}
    (ht : m.find id' = some t) (id : Bytes) :
    (m.modify id' f).sessions.lookup id =
      (m.sessions.lookup id).map fun s => if id = id' ∧ s.retained = true then f s else s := by
  obtain ⟨hl, hr⟩ := Option.filter_eq_some_iff.1 ht
  rw [lookup_modify]
  by_cases hid : id = id'
  · subst hid
    simp only [hl, Option.map_some, true_and, if_true, if_pos hr]
  · simp only [hid, false_and, if_false]

theorem map_of_find_none {id' : Bytes} {f : Session → Session} {m : Manager}
    (ht : m.find id' = none) (id : Bytes) :
    m.sessions.lookup id =
      (m.sessions.lookup id).map fun s => if id = id' ∧ s.retained = true then f s else s := by
  cases hs : m.sessions.lookup id with
  | none => rfl
  | some s =>
    rw [Option.map_some, if_neg]
    rintro ⟨rfl, hr⟩
    rw [find, hs, Option.filter_some_pos hr] at ht
    cases ht

theorem lookup_start (owner kind user : Bytes) (startup : Startup) (now : Time) (random : Bytes)
    (m : Manager) (id : Bytes) :
    (m.start owner kind user startup now random).2.sessions.lookup id =
      startEffect owner kind user startup now random
        (m.start owner kind user startup now random).1
        ((Call.start owner kind user startup).ports now m) m.closing id (m.sessions.lookup id) := by
  unfold start startEffect
  by_cases hclosing : m.closing = true
  · rw [if_pos hclosing, if_pos (.inl hclosing)]
  by_cases huser : user ≠ []
  · rw [if_neg hclosing, if_pos huser, if_pos (.inr (.inl huser))]
  by_cases hkind : kind ≠ str "echo" ∧ kind ≠ str "vpn"
  · rw [if_neg hclosing, if_neg huser, if_pos hkind, if_pos (.inr (.inr hkind))]
  rw [if_neg hclosing, if_neg huser, if_neg hkind,
    if_neg (not_or.2 ⟨hclosing, not_or.2 ⟨huser, hkind⟩⟩)]
  dsimp only
  by_cases hlen : 8 ≤ (m.prune now fun _ => true).len
  · rw [if_pos hlen]
    exact lookup_prune_all now m id
  rw [if_neg hlen]
  cases hports : (m.prune now fun _ => true).choosePorts kind with
  | error e => exact lookup_prune_all now m id
  | ok ports =>
    cases startup with
    | failed e => exact lookup_prune_all now m id
    | ready link t events =>
      simp only [launch, Call.ports, hports]
      rw [Map.lookup_insert', lookup_prune_all]

theorem lookup_startUser (owner user iface ip : Bytes) (visited : Bytes → Bool) (now : Time)
    (random : Bytes) (m : Manager) (id : Bytes) :
    (m.startUser owner user iface ip visited now random).2.sessions.lookup id =
      startUserEffect owner user iface ip visited now random
        (m.startUser owner user iface ip visited now random).1 id (m.sessions.lookup id) := by
  unfold startUser startUserEffect
  by_cases huser : user = []
  · rw [if_pos huser, if_pos (.inl huser)]
  by_cases hiface : iface ≠ [] ∧ ¬ (isInterface iface ∧ (parseIP ip).any isTo4)
  · rw [if_neg huser, if_pos hiface, if_pos (.inr hiface)]
  rw [if_neg huser, if_neg hiface, if_neg (not_or.2 ⟨huser, hiface⟩)]
  by_cases hany : (m.prune now fun _ => true).sessions.Any fun _ s =>
      s.retained ∧ s.state = .running ∧ s.user = user
  · rw [if_pos hany]
    dsimp only
    rw [lookup_prune]
    congr 1
    funext s
    cases visited id <;> simp
  rw [if_neg hany]
  by_cases hfull : (m.prune now fun _ => true).closing ∨
      (m.prune now fun _ => true).config.slots ≤ (m.prune now fun _ => true).active ∨
      8 ≤ (m.prune now fun _ => true).len
  · rw [if_pos hfull]
    dsimp only
    simp [lookup_prune_all]
  · rw [if_neg hfull]
    dsimp only
    rw [Map.lookup_insert', lookup_prune_all]

theorem lookup_ticket (id' : Bytes) (now : Time) (random : Bytes) (m : Manager) (id : Bytes) :
    (m.ticket id' now random).2.sessions.lookup id =
      (m.sessions.lookup id).map fun s =>
        if id = id' then (s.makeTicket now random).2 else s := by
  unfold ticket
  cases hs : m.sessions.lookup id' with
  | some s => exact lookup_modify id' _ m id
  | none =>
    cases ho : m.sessions.lookup id with
    | none => rfl
    | some s =>
      rw [Option.map_some, if_neg]
      rintro rfl
      rw [hs] at ho
      cases ho

theorem lookup_redeem (id' t : Bytes) (now : Time) (random : Bytes) (m : Manager) (id : Bytes) :
    (m.redeem id' t now random).2.sessions.lookup id =
      (m.sessions.lookup id).map fun s =>
        if id = id' ∧ s.retained = true then (s.redeem t now random).2 else s := by
  unfold redeem
  cases ht : m.find id' with
  | none => exact map_of_find_none ht id
  | some s => exact lookup_find_modify ht id

theorem lookup_attach (id' token : Bytes) (m : Manager) (id : Bytes) :
    (m.attach id' token).2.sessions.lookup id =
      (m.sessions.lookup id).map fun s =>
        if id = id' ∧ s.retained = true then (s.attach token).2 else s := by
  unfold attach
  cases ht : m.find id' with
  | none => exact map_of_find_none ht id
  | some s => exact lookup_find_modify ht id

/-- What a call does to a session depends on this session, and on what the call returns. -/
theorem lookup_apply (c : Call) (now : Time) (random : Bytes) (m : Manager) (id : Bytes) :
    (m.apply c now random).2.sessions.lookup id =
      c.effect now random (m.apply c now random).1 (c.ports now m) m.closing id
        (m.sessions.lookup id) := by
  cases c with
  | start owner kind user startup => exact lookup_start owner kind user startup now random m id
  | startUser owner user iface ip visited =>
    exact lookup_startUser owner user iface ip visited now random m id
  | record id' e => exact lookup_modify id' _ m id
  | ticket id' => exact lookup_ticket id' now random m id
  | redeem id' t => exact lookup_redeem id' t now random m id
  | attach id' token => exact lookup_attach id' token m id
  | stopOwner owner => exact lookup_update _ m id
  | stopUser user => exact lookup_update _ m id
  | drop id' => exact lookup_modify id' _ m id
  | close => exact lookup_update _ m id

end Manager

/-! ### What a step does to a session -/

namespace Session

/-- The session records nothing; if it has ended, it stays so. -/
structure Still (s s' : Session) : Prop where
  user : s'.user = s.user
  blocks : s'.blocks = s.blocks
  times : s'.times = s.times
  bytes : s'.bytes = s.bytes
  keyLines : s'.keyLines = s.keyLines
  ended : s.state ≠ .running → s'.state = s.state

theorem Still.refl (s : Session) : s.Still s := ⟨rfl, rfl, rfl, rfl, rfl, fun _ => rfl⟩

theorem still_stop (reason : String) (s : Session) : s.Still (s.stop reason) := by
  unfold stop
  split_ifs with hs
  · exact ⟨rfl, rfl, rfl, rfl, rfl, fun h => absurd hs h⟩
  · exact .refl s

theorem still_pruned (now : Time) (s : Session) : s.Still (s.pruned now) := by
  unfold pruned
  split_ifs
  · exact ⟨rfl, rfl, rfl, rfl, rfl, fun _ => rfl⟩
  · exact .refl s

theorem still_makeTicket (now : Time) (random : Bytes) (s : Session) :
    s.Still (s.makeTicket now random).2 := by
  unfold makeTicket
  split_ifs
  · exact .refl s
  · exact ⟨rfl, rfl, rfl, rfl, rfl, fun _ => rfl⟩

theorem still_redeem (t : Bytes) (now : Time) (random : Bytes) (s : Session) :
    s.Still (s.redeem t now random).2 := by
  unfold redeem
  split_ifs
  · exact .refl s
  · exact ⟨rfl, rfl, rfl, rfl, rfl, fun _ => rfl⟩

theorem still_attach (token : Bytes) (s : Session) : s.Still (s.attach token).2 := by
  unfold attach
  split_ifs
  · exact .refl s
  · exact ⟨rfl, rfl, rfl, rfl, rfl, fun _ => rfl⟩

end Session

/-- The session as `Start` or `StartUser` make it: the section header is emitted, and then
    there are some events. -/
def Session.Made (events : List Session.Event) (s : Session) : Prop :=
  ∃ owner kind user port tcpPort now t link,
    s = events.foldl .after
      ((Session.fresh owner kind user port tcpPort now).emit t (sectionHeader link)).2

/-- The events of a session before it comes into the table, when the call makes one. -/
def Call.startup : Call → Option (List Session.Event)
  | .start _ _ _ (.ready _ _ events) => some events
  | .startUser _ _ _ _ _ => some []
  | _ => none

theorem Call.Allowed.startup {c : Call} {random : Bytes} {m : Manager} {events : List Session.Event}
    (h : c.Allowed random m) (hc : c.startup = some events) :
    m.sessions.lookup random = none ∧ ∀ e ∈ events, e.isWrite = false := by
  cases c with
  | start owner kind user startup =>
    cases startup with
    | failed e => cases hc
    | ready link t events' =>
      cases hc
      exact h
  | startUser owner user iface ip visited =>
    cases hc
    exact ⟨h, List.forall_mem_nil _⟩
  | _ => cases hc

/-- A session that is changed in one way only. -/
theorem still_of_map {f : Session → Session} (hf : ∀ s, Session.Still s (f s)) {o : Option Session}
    {s' : Session} (h : o.map f = some s') : ∃ s, o = some s ∧ s.Still s' := by
  obtain ⟨s, rfl, rfl⟩ := Option.map_eq_some_iff.1 h
  exact ⟨s, rfl, hf s⟩

theorem Session.Still.ite {p : Prop} [Decidable p] {s s' : Session} (h : s.Still s') :
    s.Still (if p then s' else s) := by
  split_ifs
  · exact h
  · exact .refl s

/-- What a call does to a session: it is made, or it records nothing, or an event is
    recorded. -/
theorem Call.effect_cases {c : Call} {now : Time} {random : Bytes} {result : Except Error Bytes}
    {ports : ℤ × ℤ} {closing : Bool} {id : Bytes} {o : Option Session} {s' : Session}
    (h : c.effect now random result ports closing id o = some s') :
    (id = random ∧ ∃ events, c.startup = some events ∧ s'.Made events) ∨
    ∃ s, o = some s ∧ (s.Still s' ∨ ∃ e, c = .record id e ∧ s' = s.after e) := by
  have still : ∀ {f : Session → Session}, (∀ s, Session.Still s (f s)) → o.map f = some s' →
      ∃ s, o = some s ∧ (s.Still s' ∨ ∃ e, c = .record id e ∧ s' = s.after e) := by
    intro f hf hmap
    obtain ⟨s, hs, hstill⟩ := still_of_map hf hmap
    exact ⟨s, hs, .inl hstill⟩
  cases c with
  | start owner kind user startup =>
    change startEffect owner kind user startup now random result ports closing id o = some s' at h
    unfold startEffect at h
    split at h
    · exact .inr ⟨s', h, .inl (.refl s')⟩
    split at h
    next link t events =>
      split at h
      next hid =>
        cases h
        exact .inl ⟨hid, events, rfl, owner, kind, user, ports.1, ports.2, now, t, link, rfl⟩
      next => exact .inr (still (Session.still_pruned now) h)
    next => exact .inr (still (Session.still_pruned now) h)
  | startUser owner user iface ip visited =>
    change startUserEffect owner user iface ip visited now random result id o = some s' at h
    unfold startUserEffect at h
    split at h
    · exact .inr ⟨s', h, .inl (.refl s')⟩
    split at h
    next =>
      split at h
      next hid =>
        cases h
        exact .inl ⟨hid, [], rfl, owner, str "user", user, 0, 0, now, now, 101, rfl⟩
      next => exact .inr (still (Session.still_pruned now) h)
    next e =>
      refine .inr (still (fun s => ?_) h)
      split_ifs
      · exact .refl s
      · exact s.still_pruned now
  | record id' e =>
    obtain ⟨s, rfl, rfl⟩ := Option.map_eq_some_iff.1 h
    refine .inr ⟨s, rfl, ?_⟩
    split_ifs with hid
    · exact .inr ⟨e, by rw [hid], rfl⟩
    · exact .inl (.refl s)
  | ticket id' => exact .inr (still (fun s => (s.still_makeTicket now random).ite) h)
  | redeem id' t => exact .inr (still (fun s => (s.still_redeem t now random).ite) h)
  | attach id' token => exact .inr (still (fun s => (s.still_attach token).ite) h)
  | stopOwner owner =>
    refine .inr (still (fun s => .ite ?_) h)
    have hstop := s.still_stop "logged out"
    exact ⟨hstop.user, hstop.blocks, hstop.times, hstop.bytes, hstop.keyLines, hstop.ended⟩
  | stopUser user => exact .inr (still (fun s => (s.still_stop _).ite) h)
  | drop id' =>
    have hdrop : ∀ s : Session, s.Still { s with retained := false } :=
      fun s => ⟨rfl, rfl, rfl, rfl, rfl, fun _ => rfl⟩
    exact .inr (still (fun s => (hdrop s).ite) h)
  | close => exact .inr (still (fun s => (s.still_stop _).ite) h)

/-- A session does not vanish. -/
theorem Call.effect_some (c : Call) (now : Time) (random : Bytes) (result : Except Error Bytes)
    (ports : ℤ × ℤ) (closing : Bool) (id : Bytes) (s : Session) :
    ∃ s', c.effect now random result ports closing id (some s) = some s' := by
  cases c with
  | start owner kind user startup =>
    unfold effect startEffect
    dsimp only
    split
    · exact ⟨s, rfl⟩
    split
    · split
      · exact ⟨_, rfl⟩
      · exact ⟨_, rfl⟩
    · exact ⟨_, rfl⟩
  | startUser owner user iface ip visited =>
    unfold effect startUserEffect
    dsimp only
    split
    · exact ⟨s, rfl⟩
    split
    · split
      · exact ⟨_, rfl⟩
      · exact ⟨_, rfl⟩
    · exact ⟨_, rfl⟩
  | _ => exact ⟨_, rfl⟩

namespace Recordings

variable {w w' : Recordings}

theorem step_call {c : Call} {now : Time} {random : Bytes} {result : Except Error Bytes}
    {ports : ℤ × ℤ} (h : w.step (.call c now random result ports) = some w') :
    c.Allowed random w.manager ∧ (w.manager.apply c now random).1 = result ∧
      c.ports now w.manager = ports ∧
      w' = { w with manager := (w.manager.apply c now random).2 } := by
  rw [step] at h
  split_ifs at h with hc
  exact ⟨hc.1, hc.2.1, hc.2.2, (Option.some.inj h).symm⟩

theorem step_keyLog {port : ℤ} {udp : Bool} {p : Bytes} {selected : List Bytes}
    (h : w.step (.keyLog port udp p selected) = some w') :
    (selected : Multiset Bytes) = w.manager.listening port udp ∧
      w' = { w with writes := w.writes ++ [⟨p, selected, none⟩] } := by
  rw [step] at h
  split_ifs at h with hc
  exact ⟨hc, (Option.some.inj h).symm⟩

theorem step_keyWrite {i : ℕ} {id p : Bytes} (h : w.step (.keyWrite i id p) = some w') :
    ∃ targets s, w.writes[i]? = some ⟨p, id :: targets, none⟩ ∧ w.session id = some s ∧
      w' =
        { w with
          manager := w.manager.modify id fun s => (s.write p).2
          writes := w.writes.set i ⟨p, targets, if (s.write p).1 then some id else none⟩ } := by
  rw [step] at h
  split at h
  next q id' targets s hw hs =>
    by_cases hc : q = p ∧ id' = id
    · rw [if_pos hc] at h
      obtain ⟨rfl, rfl⟩ := hc
      exact ⟨targets, s, hw, hs, (Option.some.inj h).symm⟩
    · rw [if_neg hc] at h
      cases h
  next => cases h

variable {id : Bytes}

theorem step_keyEmit {i : ℕ} {now : Time} (h : w.step (.keyEmit i id now) = some w') :
    ∃ p targets, w.writes[i]? = some ⟨p, targets, some id⟩ ∧
      w' =
        { w with
          manager := w.manager.modify id fun s => (s.emit now (secrets p)).2
          writes := w.writes.set i ⟨p, targets, none⟩ } := by
  rw [step] at h
  split at h
  next p targets id' hw =>
    split_ifs at h with hc
    subst hc
    exact ⟨p, targets, hw, (Option.some.inj h).symm⟩
  next => cases h

theorem step_view {a : Act} (h : w.step (.view id a) = some w') :
    ∃ s t, w.session id = some s ∧ s.connected = true ∧ a.isRecord = false ∧
      (w.stream id s).act a = some t ∧
      w' = { w with viewers := Function.update w.viewers id (t.viewer, t.sent) } := by
  rw [step] at h
  split at h
  · cases h
  next s hs =>
    split_ifs at h with hc
    obtain ⟨t, ht, rfl⟩ := Option.map_eq_some_iff.1 h
    exact ⟨s, t, hs, hc.1, hc.2, ht, rfl⟩

/-- The events that a step feeds to the session `id`. -/
inductive Feeds (w : Recordings) (id : Bytes) : Label → Session.Event → Prop
  | record {e : Session.Event} {now : Time} {random : Bytes} {result : Except Error Bytes}
    {ports : ℤ × ℤ} : e.isWrite = false →
      Feeds w id (.call (.record id e) now random result ports) e
  | packetAt {p comment : Bytes} {us : ℕ} {now : Time} : 0 < p.length → p.length ≤ 65535 →
      Feeds w id (.packetAt id p comment us now) (.emit now (commentedBlock p comment us))
  | keyWrite {i : ℕ} {p : Bytes} {targets : List Bytes} :
      w.writes[i]? = some ⟨p, id :: targets, none⟩ → Feeds w id (.keyWrite i id p) (.write p)
  | keyEmit {i : ℕ} {p : Bytes} {targets : List Bytes} {now : Time} :
      w.writes[i]? = some ⟨p, targets, some id⟩ →
      Feeds w id (.keyEmit i id now) (.emit now (secrets p))

/-- All that a step does to a session. -/
theorem step_session {a : Label} {s' : Session} (h : w.step a = some w')
    (hs' : w'.session id = some s') :
    (w.session id = none ∧ ∃ c now random result ports events,
      a = .call c now random result ports ∧ c.startup = some events ∧ s'.Made events ∧
      ∀ e ∈ events, e.isWrite = false) ∨
    ∃ s, w.session id = some s ∧ (s.Still s' ∨ ∃ e, w.Feeds id a e ∧ s' = s.after e) := by
  -- A session that is modified, in a step that feeds it an event.
  have modified : ∀ {id' : Bytes} {e : Session.Event}, w.Feeds id' a e →
      (w.manager.modify id' (·.after e)).sessions.lookup id = some s' →
      ∃ s, w.session id = some s ∧ (s.Still s' ∨ ∃ e, w.Feeds id a e ∧ s' = s.after e) := by
    intro id' e hfeeds hlookup
    rw [Manager.lookup_modify] at hlookup
    obtain ⟨s, hs, rfl⟩ := Option.map_eq_some_iff.1 hlookup
    refine ⟨s, hs, ?_⟩
    split_ifs with hid
    · subst hid
      exact .inr ⟨e, hfeeds, rfl⟩
    · exact .inl (.refl s)
  cases a with
  | call c now random result ports =>
    obtain ⟨hallowed, rfl, rfl, rfl⟩ := step_call h
    rw [session, Manager.lookup_apply] at hs'
    rcases Call.effect_cases hs' with
      ⟨rfl, events, hevents, hmade⟩ | ⟨s, hs, hstill | ⟨e, rfl, rfl⟩⟩
    · obtain ⟨hnone, hw⟩ := hallowed.startup hevents
      exact .inl ⟨hnone, c, now, id, _, _, events, rfl, hevents, hmade, hw⟩
    · exact .inr ⟨s, hs, .inl hstill⟩
    · exact .inr ⟨s, hs, .inr ⟨e, .record hallowed, rfl⟩⟩
  | packetAt id' p comment us now =>
    cases h
    by_cases hp : p.length = 0 ∨ 65535 < p.length
    · rw [session, Manager.lookup_modify] at hs'
      obtain ⟨s, hs, rfl⟩ := Option.map_eq_some_iff.1 hs'
      refine .inr ⟨s, hs, .inl (.ite ?_)⟩
      rw [Session.packetAt, if_pos hp]
      exact .refl s
    · refine .inr (modified (.packetAt (by omega) (by omega)) ?_)
      have hemit : Session.packetAt p comment us now =
          fun s => s.after (.emit now (commentedBlock p comment us)) := by
        funext s
        rw [Session.packetAt, if_neg hp]
        rfl
      rwa [← hemit]
  | keyLog port udp p selected =>
    obtain ⟨-, rfl⟩ := step_keyLog h
    exact .inr ⟨s', hs', .inl (.refl s')⟩
  | write id' p =>
    cases h
    exact .inr ⟨s', hs', .inl (.refl s')⟩
  | keyWrite i id' p =>
    obtain ⟨targets, s, hw, -, rfl⟩ := step_keyWrite h
    exact .inr (modified (.keyWrite hw) hs')
  | keyEmit i id' now =>
    obtain ⟨p, targets, hw, rfl⟩ := step_keyEmit h
    exact .inr (modified (.keyEmit hw) hs')
  | view id' a =>
    obtain ⟨s, t, -, -, -, -, rfl⟩ := step_view h
    exact .inr ⟨s', hs', .inl (.refl s')⟩

/-- A session does not vanish. -/
theorem step_kept {a : Label} {s : Session} (h : w.step a = some w') (hs : w.session id = some s) :
    ∃ s', w'.session id = some s' := by
  have modified : ∀ (id' : Bytes) (f : Session → Session),
      ∃ s', (w.manager.modify id' f).sessions.lookup id = some s' := by
    intro id' f
    rw [Manager.lookup_modify, show w.manager.sessions.lookup id = some s from hs]
    exact ⟨_, rfl⟩
  cases a with
  | call c now random result ports =>
    obtain ⟨-, -, -, rfl⟩ := step_call h
    rw [session, Manager.lookup_apply, show w.manager.sessions.lookup id = some s from hs]
    exact Call.effect_some c now random _ _ _ id s
  | packetAt id' p comment us now =>
    cases h
    exact modified id' _
  | keyLog port udp p selected =>
    obtain ⟨-, rfl⟩ := step_keyLog h
    exact ⟨s, hs⟩
  | write id' p =>
    cases h
    exact ⟨s, hs⟩
  | keyWrite i id' p =>
    obtain ⟨targets, t, -, -, rfl⟩ := step_keyWrite h
    exact modified id' _
  | keyEmit i id' now =>
    obtain ⟨p, targets, -, rfl⟩ := step_keyEmit h
    exact modified id' _
  | view id' a =>
    obtain ⟨t, t', -, -, -, -, rfl⟩ := step_view h
    exact ⟨s, hs⟩

end Recordings

/-! ### What is recorded -/

namespace Session

/-- What a session has recorded is accounted for, and bounded. -/
structure Accounted (s : Session) : Prop where
  bytes : s.bytes = (s.blocks.map List.length).sum
  bounded : s.bytes ≤ maxBytes
  times : s.times.length = s.blocks.length
  header : ∃ link, s.blocks.head? = some (sectionHeader link)
  keys : s.keyLines.length ≤ 2 ^ 20

theorem Accounted.still {s s' : Session} (h : s.Accounted) (hs : s.Still s') : s'.Accounted := by
  refine ⟨?_, ?_, ?_, ?_, ?_⟩
  · rw [hs.bytes, hs.blocks, h.bytes]
  · rw [hs.bytes]
    exact h.bounded
  · rw [hs.times, hs.blocks, h.times]
  · rw [hs.blocks]
    exact h.header
  · rw [hs.keyLines]
    exact h.keys

variable {s : Session}

theorem Accounted.after (h : s.Accounted) (e : Event) : (s.after e).Accounted := by
  cases e with
  | emit now b =>
    rw [Session.after, emit]
    split_ifs with hrun hmax
    · exact h
    · exact ⟨h.bytes, h.bounded, h.times, h.header, h.keys⟩
    · obtain ⟨link, hlink⟩ := h.header
      refine ⟨?_, not_lt.1 hmax, ?_, ⟨link, ?_⟩, h.keys⟩
      · simp [h.bytes]
      · simp [h.times]
      · simp [List.head?_append, hlink]
  | write p =>
    rw [Session.after, write]
    split_ifs with hfull
    · exact h
    · refine ⟨h.bytes, h.bounded, h.times, h.header, ?_⟩
      rw [List.length_append]
      exact not_lt.1 fun hlt => hfull (.inr hlt)
  | stop reason => exact h.still (s.still_stop reason)

theorem length_sectionHeader (link : ℕ) : (sectionHeader link).length = 48 := by
  simp [sectionHeader, block, putUintLE, length_putUint]

/-- The first block of a session. -/
theorem emit_header (owner kind user : Bytes) (port tcpPort : ℤ) (now t : Time) (link : ℕ) :
    (fresh owner kind user port tcpPort now).emit t (sectionHeader link) =
      (none,
        { fresh owner kind user port tcpPort now with
          blocks := [sectionHeader link]
          times := [t]
          bytes := 48 }) := by
  rw [emit, if_neg (by simp [fresh]), if_neg]
  · simp [fresh, length_sectionHeader]
  · simp [fresh, length_sectionHeader, maxBytes]

theorem Made.accounted {events : List Event} (h : s.Made events) : s.Accounted := by
  obtain ⟨owner, kind, user, port, tcpPort, now, t, link, rfl⟩ := h
  induction events using List.reverseRecOn with
  | nil =>
    rw [List.foldl_nil, emit_header]
    exact ⟨by simp [length_sectionHeader], show 48 ≤ maxBytes by decide, rfl, ⟨link, rfl⟩,
      Nat.zero_le _⟩
  | append_singleton events e ih =>
    rw [List.foldl_append]
    exact ih.after e

/-- The keys are made of some of the arguments `ps`, in their order. -/
def Keeps (ps : List Bytes) (s : Session) : Prop :=
  ∃ qs : List Bytes, qs.Sublist ps ∧ s.keyLines = qs.flatten

theorem keyLines_after_of_not_write {e : Event} (he : e.isWrite = false) (s : Session) :
    (s.after e).keyLines = s.keyLines := by
  cases e with
  | emit now b =>
    rw [after, emit]
    split_ifs <;> rfl
  | write p => cases he
  | stop reason => exact (s.still_stop reason).keyLines

theorem Made.keyLines {events : List Event} (h : s.Made events)
    (hw : ∀ e ∈ events, e.isWrite = false) : s.keyLines = [] := by
  obtain ⟨owner, kind, user, port, tcpPort, now, t, link, rfl⟩ := h
  induction events using List.reverseRecOn with
  | nil =>
    rw [List.foldl_nil, emit_header]
    rfl
  | append_singleton events e ih =>
    rw [List.foldl_append]
    refine (keyLines_after_of_not_write (hw e (by simp)) _).trans (ih fun e' he' => hw e' ?_)
    exact List.mem_append_left [e] he'

/-- A write is taken whole, or not at all. -/
theorem Keeps.write {ps : List Bytes} (h : s.Keeps ps) (p : Bytes) :
    (s.after (.write p)).Keeps (ps ++ [p]) := by
  obtain ⟨qs, hqs, hkeys⟩ := h
  rw [after, Session.write]
  split_ifs
  · exact ⟨qs, hqs.trans (List.sublist_append_left ps [p]), hkeys⟩
  · exact ⟨qs ++ [p], hqs.append_right [p], by simp [hkeys]⟩

/-- From its end on, a session stays as it is. -/
structure Frozen (s s' : Session) : Prop where
  state : s'.state = s.state
  blocks : s'.blocks = s.blocks
  times : s'.times = s.times
  bytes : s'.bytes = s.bytes
  keyLines : s'.keyLines = s.keyLines

end Session

/-- What a step writes to the session `id`. -/
def Recordings.Label.written (id : Bytes) : Recordings.Label → Option Bytes
  | .keyWrite _ id' p => if id' = id then some p else none
  | _ => none

namespace Recordings

variable {w w' : Recordings}

/-- What holds of each session after the steps `as`. -/
def Sound (as : List Label) (w : Recordings) : Prop :=
  ∀ id s, w.session id = some s → s.Accounted ∧ s.Keeps (as.filterMap (Label.written id))

theorem Sound.step {as : List Label} {a : Label} (h : w.Sound as)
    (hstep : w.step a = some w') : w'.Sound (as ++ [a]) := by
  intro id s' hs'
  have more : ∀ {s : Session}, s.Keeps (as.filterMap (Label.written id)) →
      s.Keeps ((as ++ [a]).filterMap (Label.written id)) := by
    rintro s ⟨qs, hqs, hkeys⟩
    refine ⟨qs, ?_, hkeys⟩
    rw [List.filterMap_append]
    exact hqs.trans (List.sublist_append_left _ _)
  rcases step_session hstep hs' with
    ⟨-, c, now, random, result, ports, events, rfl, -, hmade, hw⟩ |
    ⟨s, hs, hstill | ⟨e, hfeeds, rfl⟩⟩
  · exact ⟨hmade.accounted, [], List.nil_sublist _, hmade.keyLines hw⟩
  · obtain ⟨hacc, hkeeps⟩ := h id s hs
    obtain ⟨qs, hqs, hkeys⟩ := more hkeeps
    exact ⟨hacc.still hstill, qs, hqs, hstill.keyLines.trans hkeys⟩
  · obtain ⟨hacc, hkeeps⟩ := h id s hs
    refine ⟨hacc.after e, ?_⟩
    -- Only the first half of a write changes the keys.
    cases hfeeds with
    | record he =>
      obtain ⟨qs, hqs, hkeys⟩ := more hkeeps
      exact ⟨qs, hqs, (Session.keyLines_after_of_not_write he s).trans hkeys⟩
    | packetAt _ _ =>
      obtain ⟨qs, hqs, hkeys⟩ := more hkeeps
      exact ⟨qs, hqs, (Session.keyLines_after_of_not_write rfl s).trans hkeys⟩
    | keyEmit _ =>
      obtain ⟨qs, hqs, hkeys⟩ := more hkeeps
      exact ⟨qs, hqs, (Session.keyLines_after_of_not_write rfl s).trans hkeys⟩
    | @keyWrite i p targets _ =>
      rw [List.filterMap_append]
      have hp : [Label.keyWrite i id p].filterMap (Label.written id) = [p] := by
        simp [Label.written]
      rw [hp]
      exact hkeeps.write p

theorem recorded_of_run {as : List Label} (h : system.Run as w) : w.Sound as := by
  refine h.invariant (P := fun as w => Sound as w) ?_ fun as w a w' hw hs => hw.step hs
  rintro w ⟨c, rfl⟩ id s hs
  cases hs

theorem frozen_step {a : Label} {id : Bytes} {s : Session} (hstep : w.step a = some w')
    (hs : w.session id = some s) (hend : s.state ≠ .running) :
    ∃ s', w'.session id = some s' ∧ s.Frozen s' := by
  obtain ⟨s', hs'⟩ := step_kept hstep hs
  refine ⟨s', hs', ?_⟩
  rcases step_session hstep hs' with ⟨hnone, -⟩ | ⟨t, ht, hstill | ⟨e, -, rfl⟩⟩
  · rw [hs] at hnone
    cases hnone
  · cases hs.symm.trans ht
    exact ⟨hstill.ended hend, hstill.blocks, hstill.times, hstill.bytes, hstill.keyLines⟩
  · cases hs.symm.trans ht
    rw [Session.after_of_ended hend]
    exact ⟨rfl, rfl, rfl, rfl, rfl⟩

theorem frozen_of_leads {id : Bytes} {s : Session} (h : system.Leads w w')
    (hs : w.session id = some s) (hend : s.state ≠ .running) :
    ∃ s', w'.session id = some s' ∧ s.Frozen s' := by
  induction h with
  | refl => exact ⟨s, hs, rfl, rfl, rfl, rfl, rfl⟩
  | tail _ hstep ih =>
    obtain ⟨a, hstep⟩ := hstep
    obtain ⟨s₁, hs₁, h₁⟩ := ih
    obtain ⟨s₂, hs₂, h₂⟩ := frozen_step hstep hs₁ (h₁.state ▸ hend)
    exact ⟨s₂, hs₂, h₂.state.trans h₁.state, h₂.blocks.trans h₁.blocks, h₂.times.trans h₁.times,
      h₂.bytes.trans h₁.bytes, h₂.keyLines.trans h₁.keyLines⟩

/-- A capture of a listener is started, which writes its secrets; the capture is stopped
    before their block is emitted. -/
def sampleLabels : List Label :=
  [.call (.start [7] (str "vpn") [] (.ready 1 0 [])) 0 [1] (.ok [1]) (4000, 4000),
    .keyLog 4000 true [7, 8] [[1]], .keyWrite 0 [1] [7, 8],
    .call (.record [1] (.stop "stopped")) 1 [] (.ok []) (0, 0), .keyEmit 0 [1] 2]

theorem sampleLabels_run : ∃ w s, system.Run sampleLabels w ∧ w.session [1] = some s ∧
    s.state = .ended "stopped" ∧ s.blocks.length = 1 := by
  have h : system.Run [] (new ⟨str "eth0", 4000, ∅, 2, str "/usr/sbin/tcpdump"⟩) := .init ⟨_, rfl⟩
  exact ⟨_, _, h.foldlM (f := step) (fun _ _ _ h => h) rfl, rfl, rfl, rfl⟩

/-- What a capture keeps in memory is bounded, and frozen once it has ended. However the
    calls, the packets, the writes and the views interleave, `Bytes` is the sum of the
    lengths of the blocks, at most 32 MiB; there is a time for each block; the first one
    is the section header; and the keys, at most 1 MiB, are whole arguments of `Write` in
    the order of the writes. Once the state is no longer `running`, it is what it is for
    good, and so are the blocks, `Bytes` and the keys. -/
theorem recorded_bounded {as : List Label} (h : system.Run as w) {id : Bytes} {s : Session}
    (hs : w.session id = some s) :
    s.bytes = (s.blocks.map List.length).sum ∧ s.bytes ≤ 32 * 2 ^ 20 ∧
    s.times.length = s.blocks.length ∧
    (∃ link, s.blocks.head? = some (sectionHeader link)) ∧
    s.keyLines.length ≤ 2 ^ 20 ∧
    (∃ qs : List Bytes, qs.Sublist (as.filterMap (Label.written id)) ∧ s.keyLines = qs.flatten) ∧
    (s.state ≠ .running → ∀ w', system.Leads w w' → ∃ s', w'.session id = some s' ∧
      s'.state = s.state ∧ s'.blocks = s.blocks ∧ s'.times = s.times ∧ s'.bytes = s.bytes ∧
      s'.keyLines = s.keyLines) := by
  obtain ⟨hacc, hkeeps⟩ := recorded_of_run h id s hs
  refine ⟨hacc.bytes, hacc.bounded, hacc.times, hacc.header, hacc.keys, hkeeps, ?_⟩
  intro hend w' hleads
  obtain ⟨s', hs', hfrozen⟩ := frozen_of_leads hleads hs hend
  exact ⟨s', hs', hfrozen.state, hfrozen.blocks, hfrozen.times, hfrozen.bytes, hfrozen.keyLines⟩

/-- The secrets of the sample are kept, and the block is not recorded. -/
theorem recorded_bounded_sample : ∃ w s, w.session [1] = some s ∧ s.bytes ≤ 32 * 2 ^ 20 ∧
    ∃ w', system.Leads w w' ∧ ∃ s', w'.session [1] = some s' ∧ s'.blocks = s.blocks := by
  obtain ⟨w, s, hrun, hs, hstate, -⟩ := sampleLabels_run
  obtain ⟨-, hbytes, -, -, -, -, hfrozen⟩ := recorded_bounded hrun hs
  have hend : s.state ≠ .running := by
    rw [hstate]
    exact fun h => by cases h
  obtain ⟨s', hs', -, hblocks, -⟩ := hfrozen hend w .refl
  exact ⟨w, s, hs, hbytes, w, .refl, s', hs', hblocks⟩

end Recordings

end QuicLab.DebugCapture
