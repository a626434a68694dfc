import Mathlib.Data.Finset.Basic
import Mathlib.Data.Rat.Defs
import QuicLab.Command
import QuicLab.Go.Bytes
import QuicLab.System

/-!
# Following the networks

A `VpnSession` hears from Android which networks there are, keeps the tunnel on one of
them, and moves it to another one when that one is lost or silent. All this is done by
its worker, one action after another; only the echoes of the server arrive on another
thread, at any time, and set some fields the worker reads (`Arrival`).

An action is a `Command`: it reads the clock, asks the gateway for something that may
fail, and changes the fields of the session. What the outside answers is a sequence of
`Reading`s that is not restricted in any way. With it goes what cannot be seen from the
session: the networks reported available or lost, and the calls of `recover` and
`migrate`.

* `Inv`: an active network that was lost is the failed one, and the networks of the
  session are available;
* `keeps_exec`: every action keeps `Inv`, whatever the outside answers;
* `tick_recovers`: while the active network is lost, a tick calls `recover`.
-/

namespace QuicLab.Android.Migration

open Go
open Command (Keeps Triple)

/-- The kinds of transport that are watched. -/
inductive Kind
  | wifi
  | cellular
  deriving DecidableEq

/-! ## Maps that keep the order of insertion -/

/-- `mutableMapOf`. -/
structure LinkedMap (K V : Type) where
  entries : List (K × V)
  nodup : (entries.map Prod.fst).Nodup

namespace LinkedMap

variable {K V : Type} [DecidableEq K]

/-- The empty map. -/
def empty : LinkedMap K V := ⟨[], List.nodup_nil⟩

/-- `map[k]` -/
def get (m : LinkedMap K V) (k : K) : Option V := (m.entries.find? (·.1 = k)).map Prod.snd

/-- `map[k] = v`: an entry that is there keeps its place. -/
def set (m : LinkedMap K V) (k : K) (v : V) : LinkedMap K V :=
  if h : k ∈ m.entries.map Prod.fst then
    ⟨m.entries.map fun e => if e.1 = k then (k, v) else e, by
      have hmap : (m.entries.map fun e => if e.1 = k then (k, v) else e).map Prod.fst =
          m.entries.map Prod.fst := by
        rw [List.map_map]
        refine List.map_congr_left fun e _ => ?_
        by_cases he : e.1 = k
        · simp [he]
        · simp [he]
      rw [hmap]
      exact m.nodup⟩
  else
    ⟨m.entries ++ [(k, v)], by
      rw [List.map_append, List.map_singleton]
      refine List.nodup_append.2 ⟨m.nodup, List.nodup_singleton _, fun a ha b hb heq => h ?_⟩
      rw [heq, List.mem_singleton.1 hb] at ha
      exact ha⟩

/-- `map.remove(k)` -/
def remove (m : LinkedMap K V) (k : K) : LinkedMap K V :=
  ⟨m.entries.filter (·.1 ≠ k), m.nodup.sublist ((List.filter_sublist).map _)⟩

variable {m : LinkedMap K V} {k : K} {v : V} {e : K × V}

theorem mem_of_get (h : m.get k = some v) : (k, v) ∈ m.entries := by
  obtain ⟨e, he, rfl⟩ := Option.map_eq_some_iff.1 h
  have hk := List.find?_some he
  rw [decide_eq_true_eq] at hk
  exact hk ▸ List.mem_of_find?_eq_some he

theorem get_of_mem (h : (k, v) ∈ m.entries) : m.get k = some v := by
  cases hfind : m.entries.find? (·.1 = k) with
  | none => exact absurd (decide_eq_true rfl) (List.find?_eq_none.1 hfind (k, v) h)
  | some e =>
    have hk := List.find?_some hfind
    rw [decide_eq_true_eq] at hk
    have heq := List.inj_on_of_nodup_map m.nodup (List.mem_of_find?_eq_some hfind) h hk
    rw [get, hfind, heq]
    rfl

theorem mem_set (h : e ∈ (m.set k v).entries) : e = (k, v) ∨ e ∈ m.entries := by
  unfold set at h
  split_ifs at h with hk
  · obtain ⟨e', he', rfl⟩ := List.mem_map.1 h
    by_cases heq : e'.1 = k
    · exact .inl (if_pos heq)
    · rw [if_neg heq]
      exact .inr he'
  · rcases mem_snoc.1 h with h | h
    · exact .inr h
    · exact .inl h

theorem mem_remove : e ∈ (m.remove k).entries ↔ e ∈ m.entries ∧ e.1 ≠ k := by
  simp [remove, List.mem_filter]

end LinkedMap

/-! ## The session -/

/-- What the session is told by its configuration. -/
structure Config where
  transport : Bytes
  probeExitIP : Bool

/-- `isAWG` -/
def Config.isAWG (c : Config) : Bool := c.transport = str "awg"

/-- The fields of a `VpnSession`; `N` are the networks. -/
structure VpnSession (N : Type) where
  networks : LinkedMap Kind N
  validated : Finset N
  client : Bool
  alive : Bool
  reconnectRequired : Bool
  lastReplyAt : ℤ
  activeNetwork : Option N
  activeKind : Kind
  failedNetwork : Option N
  automatic : Bool
  readySince : N → Option ℤ
  retryAt : N → Option ℤ
  failures : N → Option ℕ
  preparedNetwork : Option N
  preparedAt : ℤ
  nextProbeAt : ℤ
  nextExitCheckAt : ℤ
  lastSwitchAt : ℤ
  lastAttemptAt : ℤ
  intervalMS : ℤ
  awgPingSeen : Bool
  lastEchoAt : ℤ
  smoothedRTT : ℚ
  standbyRTT : ℚ
  epoch : ℕ

/-- A new session. -/
def VpnSession.new (N : Type) : VpnSession N where
  networks := .empty
  validated := ∅
  client := false
  alive := false
  reconnectRequired := false
  lastReplyAt := 0
  activeNetwork := none
  activeKind := .wifi
  failedNetwork := none
  automatic := true
  readySince _ := none
  retryAt _ := none
  failures _ := none
  preparedNetwork := none
  preparedAt := 0
  nextProbeAt := 0
  nextExitCheckAt := 0
  lastSwitchAt := 0
  lastAttemptAt := 0
  intervalMS := 50
  awgPingSeen := false
  lastEchoAt := 0
  smoothedRTT := 100
  standbyRTT := 0
  epoch := 0

/-- What arrives at the `EventSink` of the gateway with a token, at some time. -/
inductive Arrival
  | echo (token : ℕ) (time : ℤ) (rtt : ℚ)
  | standbyReady (token : ℕ) (probe : ℚ)

/-- `onEvent`, as far as it sets fields. -/
def VpnSession.onEvent {N : Type} (c : Config) (s : VpnSession N) : Arrival → VpnSession N
  | .echo token time rtt =>
    if token ≠ s.epoch then s
    else
      { s with
        awgPingSeen := s.awgPingSeen || c.isAWG
        lastEchoAt := time
        lastReplyAt := time
        smoothedRTT := s.smoothedRTT * (7 / 8) + rtt * (1 / 8) }
  | .standbyReady token probe => if token ≠ s.epoch then s else { s with standbyRTT := probe }

/-- What the outside answers: the time, whether something succeeds, and what has arrived
    meanwhile. -/
structure Reading where
  time : ℤ
  ok : Bool
  arrivals : List Arrival

/-- The calls that are recorded: `migrate` with the networks that are lost at that time. -/
inductive Call (N : Type)
  | recover
  | migrate (kind : Kind) (network : N) (lost : Finset N)

/-- The session, what the outside will answer, and the record: the networks that were
    reported available and not lost since, or lost and not available since, and the
    calls. -/
structure World (N : Type) where
  session : VpnSession N
  readings : ℕ → Reading
  reads : ℕ
  available : Finset N
  lost : Finset N
  calls : List (Call N)

/-- What is thrown. -/
inductive Failure
  | failed

/-- A part of an action. -/
abbrev Act (N α : Type) := Command (World N) Failure α

section

variable {N : Type} [DecidableEq N] (c : Config)

/-- The fields. -/
def fields : Act N (VpnSession N) := World.session <$> Command.get

/-- Sets fields. -/
def assign (f : VpnSession N → VpnSession N) : Act N Unit :=
  Command.modify fun w => { w with session := f w.session }

/-- Records a call. -/
def record (call : Finset N → Call N) : Act N Unit :=
  Command.modify fun w => { w with calls := call w.lost :: w.calls }

/-- The next answer of the outside. -/
def read : Act N Reading := do
  let w ← Command.get
  let r := w.readings w.reads
  Command.modify fun w =>
    { w with reads := w.reads + 1, session := r.arrivals.foldl (·.onEvent c) w.session }
  pure r

/-- `now()` -/
def now : Act N ℤ := Reading.time <$> read c

/-- A call of the gateway or of the system that may throw. -/
def attempt : Act N Unit := do
  let r ← read c
  if r.ok then pure () else Command.fail .failed

/-- `client?.isConnected() == true` -/
def isConnected : Act N Bool := do
  let s ← fields
  let r ← read c
  pure (s.client && r.ok)

/-! ### `MigrationPolicy` -/

/-- `isStalled` -/
def isStalled (silence : ℤ) (rtt : ℚ) (interval : ℤ) : Bool :=
  max (max 400 (min ((rtt * 4).num.tdiv (rtt * 4).den) 2000)) (interval * 3) < silence

/-- `canPreferWifi` -/
def canPreferWifi (healthy dwell : ℤ) : Bool := 5000 ≤ healthy ∧ 8000 ≤ dwell

/-- `retryDelay` -/
def retryDelay (failures : ℕ) : ℤ := min (1000 * 2 ^ min failures 5) 30000

/-! ### Moving to another network -/

/-- `penalize` -/
def penalize (network : N) : Act N Unit := do
  let s ← fields
  let count := (s.failures network).getD 0 + 1
  let time ← now c
  assign fun s =>
    { s with
      failures := Function.update s.failures network (some (min count 5))
      retryAt := Function.update s.retryAt network (some (time + retryDelay count))
      readySince := Function.update s.readySince network none
      preparedNetwork := if s.preparedNetwork = some network then none else s.preparedNetwork }

/-- The end of `migrate`. -/
def moved (kind : Kind) (network : N) : Act N Unit := do
  assign fun s => { s with preparedNetwork := none, preparedAt := 0 }
  let switched ← now c
  assign fun s => { s with lastSwitchAt := switched }
  let echoed ← now c
  assign fun s => { s with lastEchoAt := echoed }
  let probe ← now c
  assign fun s =>
    { s with
      nextProbeAt := probe + 500
      activeKind := kind
      activeNetwork := some network
      failedNetwork := none }

/-- `migrate` -/
def migrate (kind : Kind) (network : N) : Act N Unit := do
  record (.migrate kind network)
  let s ← fields
  if s.client = false then pure ()
  else if s.activeNetwork = some network ∧ s.failedNetwork = none ∧ s.reconnectRequired = false then
    pure ()
  else if s.reconnectRequired then do
    attempt c
    assign fun s => { s with reconnectRequired := false }
    let replied ← now c
    assign fun s => { s with lastReplyAt := replied, nextExitCheckAt := 0 }
    moved c kind network
  else do
    attempt c
    moved c kind network

/-- `networks[kind]?.takeIf { … (retryAt[it] ?: 0L) <= now() }` -/
def takeReady (kind : Kind) (test : VpnSession N → N → Bool) : Act N (Option (Kind × N)) := do
  let s ← fields
  match s.networks.get kind with
  | none => pure none
  | some network =>
    if test s network then do
      let time ← now c
      pure (if (s.retryAt network).getD 0 ≤ time then some (kind, network) else none)
    else pure none

/-- The network to move to: another one, or, for a connection that has to be made anew, the
    same kind again. -/
def candidate : Act N (Option (Kind × N)) := do
  let wifi ← takeReady c .wifi fun s network => some network ≠ s.activeNetwork
  let cellular ← takeReady c .cellular fun s network => some network ≠ s.activeNetwork
  match wifi.or cellular with
  | some found => pure (some found)
  | none => do
    let s ← fields
    if (s.reconnectRequired ∨ c.transport = str "https" ∨ c.isAWG) ∧ s.failedNetwork ≠ none then
      takeReady c s.activeKind fun _ _ => true
    else pure none

/-- `recover` -/
def recover : Act N Unit := do
  record fun _ => .recover
  let s ← fields
  if s.automatic = false ∨ s.alive = false then pure ()
  else do
    let time ← now c
    if time - s.lastAttemptAt < 750 then pure ()
    else do
      let attempted ← now c
      assign fun s => { s with lastAttemptAt := attempted }
      let previous := s.activeNetwork
      match ← candidate c with
      | none => assign fun s => { s with failedNetwork := previous }
      | some (kind, network) =>
        (do
          migrate c kind network
          match previous with
          | none => pure ()
          | some network => penalize c network).orElse fun _ => do
            assign fun s => { s with failedNetwork := previous }
            penalize c network

/-- `stopInternal` -/
def stopInternal : Act N Unit :=
  assign fun s =>
    { s with
      epoch := s.epoch + 1
      awgPingSeen := false
      alive := false
      reconnectRequired := false
      activeNetwork := none
      failedNetwork := none
      preparedNetwork := none
      readySince := fun _ => none
      retryAt := fun _ => none
      failures := fun _ => none
      lastAttemptAt := 0
      nextProbeAt := 0
      client := false }

/-! ### The tick -/

/-- `readySince.putIfAbsent` -/
def putIfAbsent (m : N → Option ℤ) (network : N) (time : ℤ) : N → Option ℤ :=
  Function.update m network (some ((m network).getD time))

/-- The end of `tick` with AWG: a Wi-Fi that stays valid is preferred. -/
def preferWifi (time : ℤ) : Act N Unit := do
  let s ← fields
  match s.networks.get .wifi with
  | none => pure ()
  | some wifi =>
    if wifi ∈ s.validated ∧ some wifi ≠ s.activeNetwork then do
      assign fun s => { s with readySince := putIfAbsent s.readySince wifi time }
      let s ← fields
      if (s.retryAt wifi).getD 0 ≤ time ∧
          canPreferWifi (time - (s.readySince wifi).getD time) (time - s.lastSwitchAt) then
        (migrate c .wifi wifi).orElse fun _ => penalize c wifi
      else pure ()
    else pure ()

/-- What `tick` does with a reserve network that answers. -/
def useReserve (kind : Kind) (network : N) : Act N Unit := do
  attempt c
  let prepared ← now c
  assign fun s => { s with preparedNetwork := some network, preparedAt := prepared }
  let ready ← now c
  assign fun s => { s with readySince := putIfAbsent s.readySince network ready }
  let healthy ← now c
  let dwell ← now c
  let s ← fields
  let since := (s.readySince network).getD healthy
  if s.activeKind = .cellular ∧ kind = .wifi ∧ network ∈ s.validated ∧
      canPreferWifi (healthy - since) (dwell - s.lastSwitchAt) ∧
      s.standbyRTT < max 150 (s.smoothedRTT * (5 / 4)) then
    migrate c .wifi network
  else do
    let switched ← now c
    let ready ← now c
    let s ← fields
    if 600 < s.smoothedRTT ∧ s.standbyRTT * 2 < s.smoothedRTT ∧ 8000 < switched - s.lastSwitchAt ∧
        3000 < ready - (s.readySince network).getD ready then
      recover c
    else pure ()

/-- The end of `tick` without AWG: a reserve network is probed. -/
def probeReserve (time : ℤ) : Act N Unit := do
  let s ← fields
  if s.alive = false ∨ time < s.nextProbeAt then pure ()
  else
    match s.networks.entries.find? fun e =>
        some e.2 ≠ s.activeNetwork ∧ (s.retryAt e.2).getD 0 ≤ time with
    | none => pure ()
    | some (kind, network) => do
      assign fun s => { s with nextProbeAt := time + 1500 }
      if s.client = false then pure ()
      else
        (useReserve c kind network).orElse fun _ => do
          assign fun s => { s with preparedNetwork := none }
          penalize c network

/-- The check of the exit address, in `tick`. -/
def checkExit (time : ℤ) : Act N Unit := do
  let s ← fields
  if c.probeExitIP ∧ s.nextExitCheckAt ≤ time ∧ time - s.lastEchoAt < 2000 then
    assign fun s => { s with nextExitCheckAt := time + 60000 }
  else pure ()

/-- Has the active network answered since the last attempt? Then it has not failed. -/
def clearFailure (time : ℤ) : Act N Unit := do
  let s ← fields
  if s.activeNetwork ∈ s.networks.entries.map (some ·.2) ∧ s.lastAttemptAt < s.lastEchoAt ∧
      time - s.lastEchoAt < max 150 (s.intervalMS * 2) then
    assign fun s =>
      { s with
        failedNetwork := none
        failures := fun n =>
          if 30000 < time - s.lastSwitchAt ∧ s.activeNetwork = some n then none else s.failures n
        retryAt := fun n =>
          if 30000 < time - s.lastSwitchAt ∧ s.activeNetwork = some n then none else s.retryAt n }
  else pure ()

/-- Recovers if the server is silent or the active network has failed. -/
def recoverStalled (time : ℤ) : Act N Unit := do
  let s ← fields
  if (c.isAWG = false ∨ s.awgPingSeen) ∧
      isStalled (time - s.lastEchoAt) s.smoothedRTT s.intervalMS then
    recover c
  else if s.failedNetwork ≠ none then recover c
  else pure ()

/-- `tick`, where the transport works. -/
def tickConnected (time : ℤ) : Act N Unit := do
  clearFailure time
  recoverStalled c time
  if c.isAWG then preferWifi c time else probeReserve c time

/-- `tick` -/
def tick : Act N Unit := do
  let s ← fields
  if s.alive = false then pure ()
  else do
    let time ← now c
    checkExit c time
    let s ← fields
    if s.automatic = false then pure ()
    else if c.isAWG then tickConnected c time
    else do
      let connected ← isConnected c
      let s ← fields
      if connected = false ∨ 15000 < time - s.lastReplyAt then do
        assign fun s => { s with reconnectRequired := true, failedNetwork := s.activeNetwork }
        recover c
      else tickConnected c time

/-! ### Actions -/

/-- The actions of the worker. -/
inductive Action (N : Type)
  | onAvailable (kind : Kind) (network : N)
  | onCapabilitiesChanged (kind : Kind) (network : N) (ready : Bool)
  | onLosing (kind : Kind) (network : N)
  | onLost (kind : Kind) (network : N)
  | disconnected (token : ℕ)
  | pathUnavailable (token : ℕ)
  | tick
  | setAutomatic (enabled : Bool)
  | startOrMigrate (kind : Kind) (interval : ℤ)
  | checkExitIP
  | stop

/-- `onAvailable` -/
def onAvailable (kind : Kind) (network : N) : Act N Unit := do
  Command.modify fun w =>
    { w with available := insert network w.available, lost := w.lost.erase network }
  assign fun s => { s with networks := s.networks.set kind network }

/-- `onCapabilitiesChanged` -/
def onCapabilitiesChanged (network : N) (ready : Bool) : Act N Unit :=
  assign fun s =>
    if ready then
      { s with
        validated := insert network s.validated
        nextProbeAt := if s.alive ∧ network ∉ s.validated then 0 else s.nextProbeAt }
    else
      { s with
        validated := s.validated.erase network
        readySince := Function.update s.readySince network none }

/-- `onLosing` -/
def onLosing (network : N) : Act N Unit := do
  let s ← fields
  if s.activeNetwork = some network ∧ s.preparedNetwork ≠ none then do
    let time ← now c
    if time - s.preparedAt < 3000 then recover c else pure ()
  else pure ()

/-- `onLost`, before the active network is looked at. -/
def forget (kind : Kind) (network : N) (s : VpnSession N) : VpnSession N :=
  { s with
    networks := if s.networks.get kind = some network then s.networks.remove kind else s.networks
    validated := s.validated.erase network
    readySince := Function.update s.readySince network none
    retryAt := Function.update s.retryAt network none
    failures := Function.update s.failures network none
    preparedNetwork := if s.preparedNetwork = some network then none else s.preparedNetwork }

/-- `onLost` -/
def onLost (kind : Kind) (network : N) : Act N Unit := do
  Command.modify fun w =>
    { w with available := w.available.erase network, lost := insert network w.lost }
  assign (forget kind network)
  let s ← fields
  if s.activeNetwork = some network then do
    assign fun s => { s with retryAt := fun _ => none, failedNetwork := some network }
    recover c
  else pure ()

/-- `disconnected`, as it is submitted by the sink with a token. -/
def disconnected (token : ℕ) : Act N Unit := do
  let s ← fields
  if token ≠ s.epoch ∨ c.isAWG then pure ()
  else do
    let connected ← isConnected c
    if connected then pure ()
    else do
      assign fun s =>
        { s with
          reconnectRequired := true
          failedNetwork := s.activeNetwork
          retryAt := fun _ => none }
      recover c

/-- `path_unavailable`, as it is submitted by the sink with a token. -/
def pathUnavailable (token : ℕ) : Act N Unit := do
  let s ← fields
  if token ≠ s.epoch ∨ s.alive = false then pure ()
  else do
    let r ← read c
    if r.ok then do
      assign fun s =>
        { s with
          retryAt := if s.failedNetwork = none then fun _ => none else s.retryAt
          failedNetwork := s.activeNetwork }
      recover c
    else pure ()

/-- `setAutomatic` -/
def setAutomatic (enabled : Bool) : Act N Unit := do
  assign fun s => { s with automatic := enabled }
  let s ← fields
  if enabled ∧ s.failedNetwork ≠ none then recover c else pure ()

/-- The part of `startOrMigrate` that starts a tunnel. -/
def start (kind : Kind) (network : N) (interval : ℤ) : Act N Unit := do
  stopInternal
  assign fun s => { s with client := true }
  -- `resolveEndpoint`, `start` and `attach`
  attempt c
  attempt c
  attempt c
  assign fun s => { s with nextExitCheckAt := 0, alive := true, reconnectRequired := false }
  let replied ← now c
  assign fun s =>
    { s with lastReplyAt := replied, intervalMS := if c.isAWG then 1000 else interval }
  let echoed ← now c
  assign fun s => { s with lastEchoAt := echoed }
  let switched ← now c
  assign fun s =>
    { s with
      lastSwitchAt := switched
      smoothedRTT := 100
      activeKind := kind
      activeNetwork := some network }

/-- `startOrMigrate` -/
def startOrMigrate (kind : Kind) (interval : ℤ) : Act N Unit :=
  Command.orElse (do
    let s ← fields
    match s.networks.get kind with
    | none => Command.fail .failed
    | some network =>
      if s.alive then migrate c kind network else start c kind network interval) fun _ => pure ()

/-- `checkExitIP` -/
def checkExitIP : Act N Unit := do
  let s ← fields
  if s.alive ∧ c.probeExitIP then do
    let time ← now c
    assign fun s => { s with nextExitCheckAt := time + 60000 }
  else pure ()

/-- What the worker does for an action. -/
def Action.body : Action N → Act N Unit
  | .onAvailable kind network => Migration.onAvailable kind network
  | .onCapabilitiesChanged _ network ready => Migration.onCapabilitiesChanged network ready
  | .onLosing _ network => Migration.onLosing c network
  | .onLost kind network => Migration.onLost c kind network
  | .disconnected token => Migration.disconnected c token
  | .pathUnavailable token => Migration.pathUnavailable c token
  | .tick => Migration.tick c
  | .setAutomatic enabled => Migration.setAutomatic c enabled
  | .startOrMigrate kind interval => Migration.startOrMigrate c kind interval
  | .checkExitIP => Migration.checkExitIP c
  | .stop => stopInternal

/-- An action; an exception is caught. -/
def Action.exec (a : Action N) (w : World N) : World N := (a.body c w).2

end

/-! ## What is followed -/

section

variable {N : Type} {c : Config}

/-- How often `recover` was called. -/
def World.recoveries (w : World N) : ℕ :=
  w.calls.countP fun
    | .recover => true
    | .migrate _ _ _ => false

/-- What matters of a world has not changed. -/
structure Same (w w' : World N) : Prop where
  networks : w'.session.networks = w.session.networks
  active : w'.session.activeNetwork = w.session.activeNetwork
  failed : w'.session.failedNetwork = w.session.failedNetwork
  alive : w'.session.alive = w.session.alive
  automatic : w'.session.automatic = w.session.automatic
  available : w'.available = w.available
  lost : w'.lost = w.lost
  calls : w'.calls = w.calls

theorem Same.refl (w : World N) : Same w w := ⟨rfl, rfl, rfl, rfl, rfl, rfl, rfl, rfl⟩

theorem Same.trans {w w' w'' : World N} (h : Same w w') (h' : Same w' w'') : Same w w'' :=
  ⟨h'.networks.trans h.networks, h'.active.trans h.active, h'.failed.trans h.failed,
    h'.alive.trans h.alive, h'.automatic.trans h.automatic, h'.available.trans h.available,
    h'.lost.trans h.lost, h'.calls.trans h.calls⟩

/-- The fields that matter. -/
def core (s : VpnSession N) :=
  (s.networks, s.activeNetwork, s.failedNetwork, s.alive, s.automatic)

/-- Other fields were set. -/
theorem same_session {w : World N} {s : VpnSession N} (h : core s = core w.session) :
    Same w { w with session := s } := by
  simp only [core, Prod.mk.injEq] at h
  exact ⟨h.1, h.2.1, h.2.2.1, h.2.2.2.1, h.2.2.2.2, rfl, rfl, rfl⟩

/-- What depends on this only. -/
def Stable (P : World N → Prop) : Prop := ∀ w w', Same w w' → P w → P w'

theorem Stable.and {P Q : World N → Prop} (hP : Stable P) (hQ : Stable Q) :
    Stable fun w => P w ∧ Q w :=
  fun w w' h hw => ⟨hP w w' h hw.1, hQ w w' h hw.2⟩

/-- A part that changes nothing that matters, and does not fail. -/
def Quiet {α : Type} (m : Act N α) : Prop :=
  ∀ P, Stable P → ∀ E, Command.Triple P m (fun _ => P) E

namespace Quiet

variable {α β : Type} {m : Act N α} {f : α → Act N β}

theorem pure (a : α) : Quiet (Pure.pure a : Act N α) := fun _ _ _ => .pure fun _ h => h

theorem bind (hm : Quiet m) (hf : ∀ a, Quiet (f a)) : Quiet (m >>= f) := fun P hP E =>
  (hm P hP E).bind fun a => hf a P hP E

theorem map (hm : Quiet m) (g : α → β) : Quiet (g <$> m) := hm.bind fun a => pure (g a)

/-- A quiet part comes first. -/
theorem followed (hm : Quiet m) {P : World N → Prop} (hP : Stable P) {Q : β → World N → Prop}
    {E : Failure → World N → Prop} (hf : ∀ a, Triple P (f a) Q E) :
    Triple P (m >>= f) Q E :=
  (hm P hP E).bind hf

theorem fields : Quiet (fields : Act N (VpnSession N)) := fun _ _ _ _ h => h

theorem assign {g : VpnSession N → VpnSession N} (hg : ∀ s, core (g s) = core s) :
    Quiet (assign g) := fun _ hP _ w h => hP w _ (same_session (hg _)) h

theorem ite {p : Prop} [Decidable p] {m' : Act N α} (hm : Quiet m) (hm' : Quiet m') :
    Quiet (if p then m else m') := by
  split_ifs
  · exact hm
  · exact hm'

theorem read (c : Config) : Quiet (read c : Act N Reading) := by
  have honEvent : ∀ (l : List Arrival) (s : VpnSession N), ∀ w : World N,
      Same { w with session := s } { w with session := l.foldl (·.onEvent c) s } := by
    intro l
    induction l with
    | nil => exact fun s w => .refl _
    | cons a l ih =>
      intro s w
      refine Same.trans ?_ (ih (s.onEvent c a) w)
      cases a with
      | echo token time rtt =>
        simp only [VpnSession.onEvent]
        split_ifs
        · exact .refl _
        · exact same_session rfl
      | standbyReady token probe =>
        simp only [VpnSession.onEvent]
        split_ifs
        · exact .refl _
        · exact same_session rfl
  intro P hP E w hw
  have hsame := honEvent (w.readings w.reads).arrivals w.session w
  exact hP w _ ⟨hsame.networks, hsame.active, hsame.failed, hsame.alive, hsame.automatic, rfl, rfl,
    rfl⟩ hw

theorem now (c : Config) : Quiet (now c : Act N ℤ) := (read c).map _

theorem isConnected (c : Config) : Quiet (isConnected c : Act N Bool) :=
  fields.bind fun _ => (read c).bind fun _ => pure _

theorem penalize [DecidableEq N] (c : Config) (network : N) : Quiet (penalize c network) :=
  fields.bind fun _ => (now c).bind fun _ =>
    assign fun _ => rfl

end Quiet

variable {E : Failure → World N → Prop} {P : World N → Prop}

/-- An attempt changes nothing that matters, but may fail. -/
theorem attempt_spec (hP : Stable P) (hE : ∀ e w, P w → E e w) :
    Triple P (attempt c) (fun _ => P) E := by
  refine (Quiet.read c P hP E).bind fun r => ?_
  split_ifs
  · exact .pure fun _ h => h
  · exact .fail (hE _)

/-- The fields are those of the session. -/
theorem fields_bind {α : Type} {f : VpnSession N → Act N α} {Q : α → World N → Prop}
    (h : ∀ s, Triple (fun w => P w ∧ w.session = s) (f s) Q E) :
    Triple P (fields >>= f) Q E :=
  fun w hw => h w.session w ⟨hw, rfl⟩

/-- A record, whose `recover` was called at least `k` times: the networks are available and
    of their kind, an active network that was lost is the failed one, and no lost network
    was migrated to. -/
structure Inv (kindOf : N → Kind) (k : ℕ) (w : World N) : Prop where
  networks : ∀ e ∈ w.session.networks.entries, e.2 ∈ w.available ∧ kindOf e.2 = e.1
  active : ∀ n, w.session.activeNetwork = some n → n ∈ w.lost → w.session.failedNetwork = some n
  disjoint : ∀ n ∈ w.available, n ∉ w.lost
  calls : ∀ kind n lost, .migrate kind n lost ∈ w.calls → n ∉ lost
  count : k ≤ w.recoveries

variable {kindOf : N → Kind} {k : ℕ}

theorem Inv.stable (kindOf : N → Kind) (k : ℕ) : Stable (Inv kindOf k) := by
  intro w w' hsame h
  obtain ⟨hnetworks, hactive, hfailed, -, -, havailable, hlost, hcalls⟩ := hsame
  refine ⟨?_, ?_, ?_, ?_, ?_⟩
  · rw [hnetworks, havailable]
    exact h.networks
  · rw [hactive, hlost, hfailed]
    exact h.active
  · rw [havailable, hlost]
    exact h.disjoint
  · rw [hcalls]
    exact h.calls
  · rw [World.recoveries, hcalls]
    exact h.count

theorem Inv.mono {k' : ℕ} (hk : k' ≤ k) {w : World N} (h : Inv kindOf k w) : Inv kindOf k' w :=
  ⟨h.networks, h.active, h.disjoint, h.calls, hk.trans h.count⟩

theorem Inv.get {w : World N} (h : Inv kindOf k w) {kind : Kind} {n : N}
    (hget : w.session.networks.get kind = some n) : n ∈ w.available :=
  (h.networks _ (LinkedMap.mem_of_get hget)).1

theorem stable_available (n : N) : Stable fun w : World N => n ∈ w.available := by
  intro w w' h hw
  show n ∈ w'.available
  rwa [h.available]

theorem stable_active (a : Option N) : Stable fun w : World N => w.session.activeNetwork = a :=
  fun _ _ h hw => h.active.trans hw

/-- The session is on another network, which is available. -/
theorem moved_spec (kind : Kind) (n : N) :
    Triple (fun w => Inv kindOf k w ∧ n ∈ w.available) (moved c kind n)
      (fun _ => Inv kindOf k) E := by
  have hP := (Inv.stable kindOf k).and (stable_available n)
  refine (Quiet.assign fun _ => by rfl).followed hP fun _ => ?_
  refine (Quiet.now c).followed hP fun switched => ?_
  refine (Quiet.assign fun _ => by rfl).followed hP fun _ => ?_
  refine (Quiet.now c).followed hP fun echoed => ?_
  refine (Quiet.assign fun _ => by rfl).followed hP fun _ => ?_
  refine (Quiet.now c).followed hP fun probe => .modify fun w hw => ?_
  refine ⟨hw.1.networks, fun m hm hlost => ?_, hw.1.disjoint, hw.1.calls, hw.1.count⟩
  cases hm
  exact absurd hlost (hw.1.disjoint n hw.2)

/-- What was found is available. -/
def Found (found : Option (Kind × N)) (w : World N) : Prop := ∀ e ∈ found, e.2 ∈ w.available

theorem Found.stable (found : Option (Kind × N)) : Stable (Found found) := by
  intro w w' h hw e he
  rw [h.available]
  exact hw e he

theorem takeReady_spec (kind : Kind) (test : VpnSession N → N → Bool) (hP : Stable P) :
    Triple (fun w => Inv kindOf k w ∧ P w) (takeReady c kind test)
      (fun found w => (Inv kindOf k w ∧ P w) ∧ Found found w) E := by
  have hnone : ∀ w : World N, Found none w := fun _ _ he => absurd he (by simp)
  refine fields_bind fun s => ?_
  cases hget : s.networks.get kind with
  | none => exact .pure fun w hw => ⟨hw.1, hnone w⟩
  | some n =>
    dsimp only
    split_ifs
    · -- While the clock is read, the network stays available.
      have hstable := ((Inv.stable kindOf k).and hP).and (stable_available n)
      have havailable : ∀ w, (Inv kindOf k w ∧ P w) ∧ w.session = s →
          (Inv kindOf k w ∧ P w) ∧ n ∈ w.available := by
        rintro w ⟨hw, rfl⟩
        exact ⟨hw, hw.1.get hget⟩
      refine Triple.conseq ((Quiet.now c).followed hstable fun time => .pure ?_)
        havailable (fun _ _ h => h) fun _ _ h => h
      intro w hw
      split_ifs
      · refine ⟨hw.1, fun e he => ?_⟩
        cases he
        exact hw.2
      · exact ⟨hw.1, hnone w⟩
    · exact .pure fun w hw => ⟨hw.1, hnone w⟩

theorem Quiet.checkExit (c : Config) (time : ℤ) : Quiet (checkExit c time : Act N Unit) :=
  fields.bind fun _ => .ite (assign fun _ => rfl) (pure _)

/-- A lost active network, in automatic mode. -/
def Lost (n : N) (w : World N) : Prop :=
  w.session.alive = true ∧ w.session.automatic = true ∧ w.session.activeNetwork = some n ∧
    n ∈ w.lost

theorem Lost.stable (n : N) : Stable (Lost n) := by
  rintro w w' h ⟨halive, hautomatic, hactive, hlost⟩
  refine ⟨h.alive.trans halive, h.automatic.trans hautomatic, h.active.trans hactive, ?_⟩
  rw [h.lost]
  exact hlost

theorem keeps_stopInternal : Keeps (@Inv N kindOf k) stopInternal :=
  .modify fun _ hw => ⟨hw.networks, fun _ hn => (by cases hn), hw.disjoint, hw.calls, hw.count⟩

/-- A new tunnel is on an available network. -/
theorem keeps_start (kind : Kind) (n : N) (interval : ℤ) :
    Triple (fun w => Inv kindOf k w ∧ n ∈ w.available) (start c kind n interval)
      (fun _ => Inv kindOf k) (fun _ => Inv kindOf k) := by
  let P : World N → Prop := fun w => Inv kindOf k w ∧ n ∈ w.available
  have hP : Stable P := (Inv.stable kindOf k).and (stable_available n)
  have hattempt : Triple P (attempt c) (fun _ => P) (fun _ => Inv kindOf k) :=
    attempt_spec hP fun _ w hw => hw.1
  have hstop : Triple P stopInternal (fun _ => P) (fun _ => Inv kindOf k) :=
    .modify fun w hw =>
      ⟨⟨hw.1.networks, (fun _ hn => by cases hn), hw.1.disjoint, hw.1.calls, hw.1.count⟩, hw.2⟩
  have halive : Triple P
      (assign fun s => { s with nextExitCheckAt := 0, alive := true, reconnectRequired := false })
      (fun _ => P) (fun _ => Inv kindOf k) :=
    .modify fun w hw =>
      ⟨⟨hw.1.networks, hw.1.active, hw.1.disjoint, hw.1.calls, hw.1.count⟩, hw.2⟩
  refine hstop.bind fun _ => ?_
  refine (Quiet.assign fun _ => by rfl).followed hP fun _ => ?_
  refine hattempt.bind fun _ => hattempt.bind fun _ => hattempt.bind fun _ => ?_
  refine halive.bind fun _ => (Quiet.now c).followed hP fun replied => ?_
  refine (Quiet.assign fun _ => by rfl).followed hP fun _ => ?_
  refine (Quiet.now c).followed hP fun echoed => ?_
  refine (Quiet.assign fun _ => by rfl).followed hP fun _ => ?_
  refine (Quiet.now c).followed hP fun switched => .modify fun w hw => ?_
  refine ⟨hw.1.networks, fun m hm hlost => ?_, hw.1.disjoint, hw.1.calls, hw.1.count⟩
  cases hm
  exact absurd hlost (hw.1.disjoint n hw.2)

theorem Quiet.checkExitIP (c : Config) : Quiet (checkExitIP c : Act N Unit) :=
  fields.bind fun _ => .ite ((now c).bind fun _ => assign fun _ => rfl) (pure _)

section

variable [DecidableEq N]

/-- A migration goes to an available network; if it fails, the active network stays. -/
theorem migrate_spec (kind : Kind) (n : N) (a : Option N) :
    Triple (fun w => Inv kindOf k w ∧ n ∈ w.available ∧ w.session.activeNetwork = a)
      (migrate c kind n) (fun _ => Inv kindOf k)
      (fun _ w => Inv kindOf k w ∧ w.session.activeNetwork = a) := by
  let P : World N → Prop := fun w =>
    Inv kindOf k w ∧ n ∈ w.available ∧ w.session.activeNetwork = a
  let E : Failure → World N → Prop := fun _ w => Inv kindOf k w ∧ w.session.activeNetwork = a
  have hP : Stable P := (Inv.stable kindOf k).and ((stable_available n).and (stable_active a))
  have hattempt : Triple P (attempt c) (fun _ => P) E :=
    attempt_spec hP fun _ w hw => ⟨hw.1, hw.2.2⟩
  have hmoved : Triple P (moved c kind n) (fun _ => Inv kindOf k) E :=
    (moved_spec kind n).conseq (fun w hw => ⟨hw.1, hw.2.1⟩) (fun _ _ h => h) fun _ _ h => h
  -- The call is recorded together with the networks that are lost.
  have hrecord : Triple P (record (.migrate kind n)) (fun _ => P) E := by
    refine .modify fun w hw => ⟨⟨hw.1.networks, hw.1.active, hw.1.disjoint, ?_, ?_⟩, hw.2⟩
    · intro kind' m lost hmem
      rcases List.mem_cons.1 hmem with heq | hmem
      · cases heq
        exact hw.1.disjoint n hw.2.1
      · exact hw.1.calls kind' m lost hmem
    · rw [World.recoveries, List.countP_cons_of_neg (by simp)]
      exact hw.1.count
  refine hrecord.bind fun _ => Quiet.fields.followed hP fun s => ?_
  split_ifs
  · exact .pure fun _ h => h.1
  · exact .pure fun _ h => h.1
  · refine hattempt.bind fun _ => ?_
    refine (Quiet.assign fun _ => by rfl).followed hP fun _ => ?_
    refine (Quiet.now c).followed hP fun replied => ?_
    exact (Quiet.assign fun _ => by rfl).followed hP fun _ => hmoved
  · exact hattempt.bind fun _ => hmoved

/-- The candidate is one of the networks. -/
theorem candidate_spec {P : World N → Prop} (hP : Stable P) {E : Failure → World N → Prop} :
    Triple (fun w => Inv kindOf k w ∧ P w) (candidate c)
      (fun found w => (Inv kindOf k w ∧ P w) ∧ Found found w) E := by
  refine (takeReady_spec .wifi _ hP).bind fun wifi => ?_
  -- The Wi-Fi found stays available while the other network is looked at.
  refine .of_imp (fun w hw => ⟨hw.1.1, hw.1.2, hw.2⟩)
    ((takeReady_spec .cellular _ (hP.and (Found.stable wifi))).bind fun cellular => ?_)
  cases hfound : wifi.or cellular with
  | some found =>
    refine .pure fun w hw => ⟨⟨hw.1.1, hw.1.2.1⟩, fun e he => ?_⟩
    rw [← hfound] at he
    rcases Option.or_eq_some_iff.1 he with he | ⟨-, he⟩
    · exact hw.1.2.2 e he
    · exact hw.2 e he
  | none =>
    refine .of_imp (fun w hw => ⟨hw.1.1, hw.1.2.1⟩)
      (Quiet.fields.followed ((Inv.stable kindOf k).and hP) fun s => ?_)
    split_ifs
    · exact takeReady_spec _ _ hP
    · exact .pure fun w hw => ⟨hw, fun _ he => absurd he (by simp)⟩

/-- `recover` keeps the invariant, and is recorded. -/
theorem recover_spec :
    Triple (Inv kindOf k) (recover c) (fun _ => @Inv N kindOf (k + 1))
      (fun _ => Inv kindOf (k + 1)) := by
  have hI := @Inv.stable N kindOf (k + 1)
  have hrecord : Triple (Inv kindOf k) (record fun _ => .recover)
      (fun _ => @Inv N kindOf (k + 1)) (fun _ => Inv kindOf (k + 1)) := by
    refine .modify fun w hw => ⟨hw.networks, hw.active, hw.disjoint, ?_, ?_⟩
    · intro kind n lost hmem
      rcases List.mem_cons.1 hmem with heq | hmem
      · cases heq
      · exact hw.calls kind n lost hmem
    · rw [World.recoveries, List.countP_cons_of_pos (by simp)]
      exact Nat.succ_le_succ hw.count
  refine hrecord.bind fun _ => fields_bind fun s => ?_
  have hP := hI.and (stable_active s.activeNetwork)
  split_ifs
  · exact .pure fun _ h => h.1
  -- From here on the active network is the previous one.
  refine .of_imp (fun w hw => ⟨hw.1, congrArg _ hw.2⟩) ((Quiet.now c).followed hP fun time => ?_)
  split_ifs
  · exact .pure fun _ h => h.1
  refine (Quiet.now c).followed hP fun attempted => ?_
  refine (Quiet.assign fun _ => by rfl).followed hP fun _ => ?_
  refine (candidate_spec (stable_active s.activeNetwork)).bind fun found => ?_
  have hfailed : Triple
      (fun w : World N => Inv kindOf (k + 1) w ∧ w.session.activeNetwork = s.activeNetwork)
      (assign fun s' => { s' with failedNetwork := s.activeNetwork })
      (fun _ => Inv kindOf (k + 1)) (fun _ => Inv kindOf (k + 1)) :=
    .modify fun w hw =>
      ⟨hw.1.networks, fun n hn _ => hw.2 ▸ hn, hw.1.disjoint, hw.1.calls, hw.1.count⟩
  cases found with
  | none => exact .of_imp (fun w hw => hw.1) hfailed
  | some found =>
    obtain ⟨kind, n⟩ := found
    refine Triple.orElse (.of_imp (fun w hw => ⟨hw.1.1, hw.2 _ rfl, hw.1.2⟩)
      ((migrate_spec kind n s.activeNetwork).bind fun _ => ?_)) fun _ => ?_
    · cases s.activeNetwork with
      | none => exact .pure fun _ h => h
      | some previous => exact Quiet.penalize c previous _ hI _
    · exact hfailed.bind fun _ => Quiet.penalize c n _ hI _

theorem keeps_recover : Keeps (@Inv N kindOf k) (recover c) :=
  recover_spec.conseq (fun _ h => h) (fun _ _ h => h.mono (Nat.le_succ k))
    fun _ _ h => h.mono (Nat.le_succ k)

/-- The active network is given up and recovered from. -/
theorem giveUp_spec {g : VpnSession N → VpnSession N} (hg : ∀ s, (g s).networks = s.networks ∧
      (g s).activeNetwork = s.activeNetwork ∧ (g s).failedNetwork = s.activeNetwork) :
    Triple (Inv kindOf k) (do assign g; recover c) (fun _ => Inv kindOf (k + 1))
      (fun _ => Inv kindOf (k + 1)) := by
  refine Triple.bind (.modify fun w hw => ?_) fun _ => recover_spec
  obtain ⟨hnetworks, hactive, hfailed⟩ := hg w.session
  refine ⟨?_, fun n hn _ => ?_, hw.disjoint, hw.calls, hw.count⟩
  · rw [hnetworks]
    exact hw.networks
  · rw [hfailed, ← hactive]
    exact hn

theorem keeps_giveUp {g : VpnSession N → VpnSession N} (hg : ∀ s, (g s).networks = s.networks ∧
      (g s).activeNetwork = s.activeNetwork ∧ (g s).failedNetwork = s.activeNetwork) :
    Keeps (Inv kindOf k) (do assign g; recover c) :=
  (giveUp_spec hg).conseq (fun _ h => h) (fun _ _ h => h.mono (Nat.le_succ k))
    fun _ _ h => h.mono (Nat.le_succ k)

/-- The end of a tick with AWG. -/
theorem keeps_preferWifi (time : ℤ) : Keeps (@Inv N kindOf k) (preferWifi c time) := by
  have hI := @Inv.stable N kindOf k
  refine fields_bind fun s => ?_
  cases hget : s.networks.get .wifi with
  | none => exact .pure fun _ h => h.1
  | some wifi =>
    dsimp only
    split_ifs
    · have hP := hI.and ((stable_available wifi).and (stable_active s.activeNetwork))
      have havailable : ∀ w, Inv kindOf k w ∧ w.session = s →
          Inv kindOf k w ∧ wifi ∈ w.available ∧ w.session.activeNetwork = s.activeNetwork := by
        rintro w ⟨hw, rfl⟩
        exact ⟨hw, hw.get hget, rfl⟩
      refine .of_imp havailable ?_
      refine (Quiet.assign fun _ => by rfl).followed hP fun _ => ?_
      refine Quiet.fields.followed hP fun s' => ?_
      split_ifs
      · refine (migrate_spec .wifi wifi s.activeNetwork).orElse fun _ => ?_
        exact .of_imp (fun w hw => hw.1) (Quiet.penalize c wifi _ hI _)
      · exact .pure fun _ h => h.1
    · exact .pure fun _ h => h.1

/-- A reserve network is used only while it is available. -/
theorem keeps_useReserve (kind : Kind) (n : N) :
    Triple (fun w => Inv kindOf k w ∧ n ∈ w.available) (useReserve c kind n)
      (fun _ => Inv kindOf k) (fun _ => Inv kindOf k) := by
  have hP := (Inv.stable kindOf k).and (stable_available n)
  refine (attempt_spec hP fun _ w hw => hw.1).bind fun _ => ?_
  refine (Quiet.now c).followed hP fun prepared => ?_
  refine (Quiet.assign fun _ => by rfl).followed hP fun _ => ?_
  refine (Quiet.now c).followed hP fun ready => ?_
  refine (Quiet.assign fun _ => by rfl).followed hP fun _ => ?_
  refine (Quiet.now c).followed hP fun healthy => (Quiet.now c).followed hP fun dwell => ?_
  refine fields_bind fun s => ?_
  dsimp only
  split_ifs
  · exact (migrate_spec .wifi n s.activeNetwork).conseq
      (fun w hw => ⟨hw.1.1, hw.1.2, congrArg _ hw.2⟩) (fun _ _ h => h) fun _ _ h => h.1
  · refine .of_imp (fun w hw => hw.1) ?_
    refine (Quiet.now c).followed hP fun switched => (Quiet.now c).followed hP fun ready' => ?_
    refine Quiet.fields.followed hP fun s' => ?_
    split_ifs
    · exact .of_imp (fun w hw => hw.1) keeps_recover
    · exact .pure fun _ h => h.1

/-- The end of a tick without AWG. -/
theorem keeps_probeReserve (time : ℤ) : Keeps (@Inv N kindOf k) (probeReserve c time) := by
  have hI := @Inv.stable N kindOf k
  refine fields_bind fun s => .ite (fun _ => .pure fun _ h => h.1) fun _ => ?_
  cases hfind : s.networks.entries.find? fun e =>
      some e.2 ≠ s.activeNetwork ∧ (s.retryAt e.2).getD 0 ≤ time with
  | none => exact .pure fun _ h => h.1
  | some e =>
    obtain ⟨kind, n⟩ := e
    have hmem := List.mem_of_find?_eq_some hfind
    have havailable : ∀ w, Inv kindOf k w ∧ w.session = s → Inv kindOf k w ∧ n ∈ w.available := by
      rintro w ⟨hw, rfl⟩
      exact ⟨hw, (hw.networks _ hmem).1⟩
    refine .of_imp havailable ?_
    refine (Quiet.assign fun _ => by rfl).followed
      (hI.and (stable_available n)) fun _ => .ite (fun _ => .pure fun _ h => h.1) fun _ => ?_
    refine (keeps_useReserve kind n).orElse fun _ => ?_
    refine (Quiet.assign fun _ => by rfl).followed hI fun _ => ?_
    exact Quiet.penalize c n _ hI _

/-- A failure is forgotten only while the active network is available. -/
theorem keeps_clearFailure (time : ℤ) : Keeps (@Inv N kindOf k) (clearFailure time) := by
  refine fields_bind fun s => ?_
  split_ifs with h
  · refine .modify ?_
    rintro w ⟨hw, rfl⟩
    refine ⟨hw.networks, fun n hn hlost => ?_, hw.disjoint, hw.calls, hw.count⟩
    obtain ⟨e, he, heq⟩ := List.mem_map.1 h.1
    have hactive : e.2 = n := Option.some.inj (heq.trans hn)
    exact absurd hlost (hw.disjoint n (hactive ▸ (hw.networks e he).1))
  · exact .pure fun _ h => h.1

theorem keeps_recoverStalled (time : ℤ) :
    Keeps (@Inv N kindOf k) (recoverStalled c time) := by
  refine Quiet.fields.followed (Inv.stable kindOf k) fun s => ?_
  split_ifs
  · exact keeps_recover
  · exact keeps_recover
  · exact .pure fun _ h => h

/-- The end of a tick. -/
theorem keeps_tickEnd (time : ℤ) : Keeps (@Inv N kindOf k)
    (if c.isAWG then preferWifi c time else probeReserve c time) := by
  split_ifs
  · exact keeps_preferWifi time
  · exact keeps_probeReserve time

theorem keeps_tickConnected (time : ℤ) :
    Keeps (@Inv N kindOf k) (tickConnected c time) :=
  (keeps_clearFailure time).bind fun _ => (keeps_recoverStalled time).bind fun _ =>
    keeps_tickEnd time

theorem keeps_tick : Keeps (@Inv N kindOf k) (tick c) := by
  have hI := @Inv.stable N kindOf k
  refine Quiet.fields.followed hI fun s => .ite (fun _ => .pure fun _ h => h) fun _ => ?_
  refine (Quiet.now c).followed hI fun time => (Quiet.checkExit c time).followed hI fun _ => ?_
  refine Quiet.fields.followed hI fun s => .ite (fun _ => .pure fun _ h => h) fun _ => ?_
  refine .ite (fun _ => keeps_tickConnected time) fun _ => ?_
  refine (Quiet.isConnected c).followed hI fun connected => Quiet.fields.followed hI fun s => ?_
  refine .ite (fun _ => ?_) fun _ => keeps_tickConnected time
  exact keeps_giveUp fun _ => ⟨rfl, rfl, rfl⟩

/-- A tick recovers a lost network where the transport works. -/
theorem tickConnected_lost (n : N) (time : ℤ) :
    Triple (fun w => Inv kindOf k w ∧ Lost n w) (tickConnected c time)
      (fun _ => Inv kindOf (k + 1)) (fun _ => Inv kindOf (k + 1)) := by
  -- The failure is not cleared, as the network is not among the networks.
  have hclear : Triple (fun w => Inv kindOf k w ∧ Lost n w) (clearFailure time)
      (fun _ w => Inv kindOf k w ∧ Lost n w) (fun _ => Inv kindOf (k + 1)) := by
    refine fields_bind fun s => .ite (fun h => ?_) fun _ => .pure fun _ hw => hw.1
    refine .modify ?_
    rintro w ⟨⟨hw, hn⟩, rfl⟩
    obtain ⟨e, he, heq⟩ := List.mem_map.1 h.1
    have hactive : e.2 = n := Option.some.inj (heq.trans hn.2.2.1)
    exact absurd hn.2.2.2 (hw.disjoint n (hactive ▸ (hw.networks e he).1))
  have hrecover : Triple (fun w => Inv kindOf k w ∧ Lost n w) (recoverStalled c time)
      (fun _ => Inv kindOf (k + 1)) (fun _ => Inv kindOf (k + 1)) := by
    refine fields_bind fun s => .ite (fun _ => ?_) fun _ => .ite (fun _ => ?_) fun hfailed => ?_
    · exact .of_imp (fun w hw => hw.1.1) recover_spec
    · exact .of_imp (fun w hw => hw.1.1) recover_spec
    · refine .pure ?_
      rintro w ⟨⟨hw, hn⟩, rfl⟩
      exact absurd (hw.active n hn.2.2.1 hn.2.2.2) (by simp [not_not.1 hfailed])
  exact hclear.bind fun _ => hrecover.bind fun _ => keeps_tickEnd time

/-- While the active network is lost, a tick in automatic mode calls `recover`. -/
theorem tick_recovers (n : N) :
    Triple (fun w => Inv kindOf k w ∧ Lost n w) (tick c)
      (fun _ => Inv kindOf (k + 1)) (fun _ => Inv kindOf (k + 1)) := by
  have hP := (Inv.stable kindOf k).and (Lost.stable n)
  refine fields_bind fun s => .ite (fun hdead => .pure ?_) fun _ => ?_
  · rintro w ⟨⟨-, hn⟩, rfl⟩
    rw [hn.1] at hdead
    cases hdead
  refine .of_imp (fun w hw => hw.1) ?_
  refine (Quiet.now c).followed hP fun time => (Quiet.checkExit c time).followed hP fun _ => ?_
  refine fields_bind fun s => .ite (fun hmanual => .pure ?_) fun _ => ?_
  · rintro w ⟨⟨-, hn⟩, rfl⟩
    rw [hn.2.1] at hmanual
    cases hmanual
  refine .of_imp (fun w hw => hw.1) (.ite (fun _ => tickConnected_lost n time) fun _ => ?_)
  refine (Quiet.isConnected c).followed hP fun connected => Quiet.fields.followed hP fun s => ?_
  refine .ite (fun _ => .of_imp (fun w hw => hw.1) ?_) fun _ => tickConnected_lost n time
  exact giveUp_spec fun _ => ⟨rfl, rfl, rfl⟩

/-! ### The other actions -/

theorem keeps_onAvailable {kind : Kind} {n : N} (hkind : kindOf n = kind) :
    Keeps (@Inv N kindOf k) (onAvailable kind n) := by
  refine Triple.bind (Q := fun _ w => Inv kindOf k w ∧ n ∈ w.available)
    (.modify fun w hw => ?_) fun _ => .modify fun w hw => ?_
  · refine ⟨⟨fun e he => ?_, fun m hm hlost => ?_, fun m hm hlost => ?_, hw.calls, hw.count⟩,
      Finset.mem_insert_self _ _⟩
    · exact ⟨Finset.mem_insert_of_mem (hw.networks e he).1, (hw.networks e he).2⟩
    · exact hw.active m hm (Finset.mem_of_mem_erase hlost)
    · rw [Finset.mem_erase] at hlost
      exact hw.disjoint m (Finset.mem_of_mem_insert_of_ne hm hlost.1) hlost.2
  · refine ⟨fun e he => ?_, hw.1.active, hw.1.disjoint, hw.1.calls, hw.1.count⟩
    rcases LinkedMap.mem_set he with rfl | he
    · exact ⟨hw.2, hkind⟩
    · exact hw.1.networks e he

/-- A lost network is not among the networks any more. -/
theorem forget_networks {kind : Kind} {n : N} (hkind : kindOf n = kind) {w : World N}
    (hw : Inv kindOf k w) : ∀ e ∈ (forget kind n w.session).networks.entries,
      e.2 ∈ w.available.erase n ∧ kindOf e.2 = e.1 := by
  intro e he
  have hmem : e ∈ w.session.networks.entries ∧ e.2 ≠ n := by
    simp only [forget] at he
    split_ifs at he with hget
    · obtain ⟨he, hne⟩ := LinkedMap.mem_remove.1 he
      refine ⟨he, fun heq => hne ?_⟩
      rw [← (hw.networks e he).2, heq, hkind]
    · refine ⟨he, fun heq => hget ?_⟩
      have hfst : e.1 = kind := by rw [← (hw.networks e he).2, heq, hkind]
      exact LinkedMap.get_of_mem (hfst ▸ heq ▸ he)
  exact ⟨Finset.mem_erase.2 ⟨hmem.2, (hw.networks e hmem.1).1⟩, (hw.networks e hmem.1).2⟩

/-- A lost network is dropped, and given up if it is the active one. -/
theorem keeps_onLost {kind : Kind} {n : N} (hkind : kindOf n = kind) :
    Keeps (@Inv N kindOf k) (onLost c kind n) := by
  refine Triple.bind (Q := fun _ w' => ∃ w, Inv kindOf k w ∧ w' =
      { w with available := w.available.erase n, lost := insert n w.lost })
    (.modify fun w hw => ⟨w, hw, rfl⟩) fun _ => ?_
  -- The network may now be lost, active and not yet given up.
  refine Triple.bind (Q := fun _ w =>
      Inv kindOf k { w with session := { w.session with activeNetwork := none } } ∧
        ∀ m, w.session.activeNetwork = some m → m ≠ n → m ∈ w.lost →
          w.session.failedNetwork = some m) (.modify ?_) fun _ => ?_
  · rintro w' ⟨w, hw, rfl⟩
    refine ⟨⟨forget_networks hkind hw, fun m hm => ?_, fun m hm hlost => ?_, hw.calls, hw.count⟩,
      fun m hm hne hlost => ?_⟩
    · cases hm
    · rw [Finset.mem_erase] at hm
      exact hw.disjoint m hm.2 (Finset.mem_of_mem_insert_of_ne hlost hm.1)
    · exact hw.active m hm (Finset.mem_of_mem_insert_of_ne hlost hne)
  · refine fields_bind fun s => .ite (fun hactive => ?_) fun hactive => .pure ?_
    · refine Triple.bind (.modify ?_) fun _ => keeps_recover
      rintro w ⟨⟨hw, -⟩, rfl⟩
      exact ⟨hw.networks, fun m hm _ => hactive ▸ hm, hw.disjoint, hw.calls, hw.count⟩
    · rintro w ⟨⟨hw, hother⟩, rfl⟩
      refine ⟨hw.networks, fun m hm hlost => hother m hm ?_ hlost, hw.disjoint, hw.calls, hw.count⟩
      rintro rfl
      exact hactive hm

theorem Quiet.onCapabilitiesChanged (n : N) (ready : Bool) : Quiet (onCapabilitiesChanged n ready) := by
  refine .assign fun w => ?_
  cases ready <;> rfl

theorem keeps_onLosing (n : N) : Keeps (@Inv N kindOf k) (onLosing c n) := by
  have hI := @Inv.stable N kindOf k
  refine Quiet.fields.followed hI fun s => .ite (fun _ => ?_) fun _ => .pure fun _ h => h
  refine (Quiet.now c).followed hI fun time => .ite (fun _ => keeps_recover) fun _ => ?_
  exact .pure fun _ h => h

theorem keeps_disconnected (token : ℕ) : Keeps (@Inv N kindOf k) (disconnected c token) := by
  have hI := @Inv.stable N kindOf k
  refine Quiet.fields.followed hI fun s => .ite (fun _ => .pure fun _ h => h) fun _ => ?_
  refine (Quiet.isConnected c).followed hI fun connected => .ite (fun _ => .pure fun _ h => h) fun _ => ?_
  exact keeps_giveUp fun _ => ⟨rfl, rfl, rfl⟩

theorem keeps_pathUnavailable (token : ℕ) :
    Keeps (@Inv N kindOf k) (pathUnavailable c token) := by
  have hI := @Inv.stable N kindOf k
  refine Quiet.fields.followed hI fun s => .ite (fun _ => .pure fun _ h => h) fun _ => ?_
  refine (Quiet.read c).followed hI fun r => .ite (fun _ => ?_) fun _ => .pure fun _ h => h
  exact keeps_giveUp fun _ => ⟨rfl, rfl, rfl⟩

theorem keeps_setAutomatic (enabled : Bool) :
    Keeps (@Inv N kindOf k) (setAutomatic c enabled) := by
  have hassign : Keeps (@Inv N kindOf k) (assign fun s => { s with automatic := enabled }) :=
    .modify fun w hw => ⟨hw.networks, hw.active, hw.disjoint, hw.calls, hw.count⟩
  refine hassign.bind fun _ => Quiet.fields.followed (Inv.stable kindOf k) fun s => ?_
  exact .ite (fun _ => keeps_recover) fun _ => .pure fun _ h => h

theorem keeps_startOrMigrate (kind : Kind) (interval : ℤ) :
    Keeps (@Inv N kindOf k) (startOrMigrate c kind interval) := by
  refine Triple.orElse (E := fun _ => Inv kindOf k) (fields_bind fun s => ?_)
    fun _ => .pure fun _ h => h
  cases hget : s.networks.get kind with
  | none => exact .fail fun _ h => h.1
  | some n =>
    have havailable : ∀ w, Inv kindOf k w ∧ w.session = s → Inv kindOf k w ∧ n ∈ w.available := by
      rintro w ⟨hw, rfl⟩
      exact ⟨hw, hw.get hget⟩
    refine .ite (fun _ => ?_) fun _ => .of_imp havailable (keeps_start kind n interval)
    exact (migrate_spec kind n s.activeNetwork).conseq
      (fun w hw => ⟨hw.1, (havailable w hw).2, congrArg _ hw.2⟩) (fun _ _ h => h) fun _ _ h => h.1

/-- Each network is reported under one kind. -/
def Action.Under (kindOf : N → Kind) : Action N → Prop
  | .onAvailable kind n => kindOf n = kind
  | .onCapabilitiesChanged kind n _ => kindOf n = kind
  | .onLosing kind n => kindOf n = kind
  | .onLost kind n => kindOf n = kind
  | _ => True

/-- Every action keeps the invariant. -/
theorem keeps_body {a : Action N} (ha : a.Under kindOf) :
    Keeps (Inv kindOf k) (a.body c) := by
  cases a with
  | onAvailable kind n => exact keeps_onAvailable ha
  | onCapabilitiesChanged kind n ready =>
    exact Quiet.onCapabilitiesChanged n ready _ (Inv.stable kindOf k) _
  | onLosing kind n => exact keeps_onLosing n
  | onLost kind n => exact keeps_onLost ha
  | disconnected token => exact keeps_disconnected token
  | pathUnavailable token => exact keeps_pathUnavailable token
  | tick => exact keeps_tick
  | setAutomatic enabled => exact keeps_setAutomatic enabled
  | startOrMigrate kind interval => exact keeps_startOrMigrate kind interval
  | checkExitIP => exact Quiet.checkExitIP c _ (Inv.stable kindOf k) _
  | stop => exact keeps_stopInternal

/-- The worker of a new session, whatever the outside will answer. -/
def system (c : Config) (kindOf : N → Kind) : System (World N) (Action N) where
  init w := w.session = .new N ∧ w.available = ∅ ∧ w.lost = ∅ ∧ w.calls = []
  step w a w' := a.Under kindOf ∧ w' = a.exec c w

theorem inv_of_reachable {w : World N} (h : (system c kindOf).Reachable w) : Inv kindOf 0 w := by
  refine h.invariant ?_ ?_
  · rintro w ⟨hsession, havailable, -, hcalls⟩
    refine ⟨fun e he => ?_, fun n hn => ?_, fun n hn => ?_, fun kind n lost hmem => ?_,
      Nat.zero_le _⟩
    · rw [hsession] at he
      cases he
    · rw [hsession] at hn
      cases hn
    · rw [havailable] at hn
      exact absurd hn (Finset.notMem_empty n)
    · rw [hcalls] at hmem
      cases hmem
  · rintro w a w' hw ⟨ha, rfl⟩
    exact (keeps_body ha).snd hw

/-- **A lost active network is never forgotten.** In every state between actions, if the
    session is alive and its active network has been lost, that network is the failed one,
    and the next tick in automatic mode calls `recover`. The networks of the session are
    available, and `migrate` was never called with a lost one. -/
theorem lost_not_forgotten {w : World N} (h : (system c kindOf).Reachable w) :
    (∀ n, w.session.alive = true → w.session.activeNetwork = some n → n ∈ w.lost →
      w.session.failedNetwork = some n ∧
        (w.session.automatic = true → w.recoveries < (Action.exec c .tick w).recoveries)) ∧
    (∀ e ∈ w.session.networks.entries, e.2 ∈ w.available ∧ e.2 ∉ w.lost) ∧
    ∀ kind n lost, .migrate kind n lost ∈ w.calls → n ∉ lost := by
  have hw := inv_of_reachable h
  refine ⟨fun n halive hn hlost => ⟨hw.active n hn hlost, fun hautomatic => ?_⟩,
    fun e he => ⟨(hw.networks e he).1, hw.disjoint _ (hw.networks e he).1⟩, hw.calls⟩
  -- The calls so far are counted, and those of the tick come on top.
  have hcount : Inv kindOf w.recoveries w := ⟨hw.networks, hw.active, hw.disjoint, hw.calls, le_rfl⟩
  exact (Command.Triple.snd (tick_recovers n) ⟨hcount, halive, hautomatic, hn, hlost⟩).count

end

end

namespace Sample

/-- Everything succeeds, a second passes between two readings, and nothing arrives. -/
def world : World ℕ where
  session := .new ℕ
  readings n := ⟨1000 * n, true, []⟩
  reads := 0
  available := ∅
  lost := ∅
  calls := []

/-- The Wi-Fi network 7 is there, a tunnel is started on it, and the network is lost. -/
def lostWorld : World ℕ :=
  [Action.onAvailable .wifi 7, .startOrMigrate .wifi 50, .onLost .wifi 7].foldl
    (fun w a => a.exec ⟨str "quic", false⟩ w) world

end Sample

theorem lost_not_forgotten_sample :
    Sample.lostWorld.session.alive = true ∧ Sample.lostWorld.session.failedNetwork = some 7 := by
  have hreach : (system ⟨str "quic", false⟩ fun _ : ℕ => .wifi).Reachable Sample.lostWorld :=
    .step (a := .onLost .wifi 7) (.step (a := .startOrMigrate .wifi 50)
      (.step (a := .onAvailable .wifi 7) (.init ⟨rfl, rfl, rfl, rfl⟩) ⟨rfl, rfl⟩) ⟨trivial, rfl⟩)
      ⟨rfl, rfl⟩
  exact ⟨rfl, ((lost_not_forgotten hreach).1 7 rfl rfl (by decide)).1⟩

end QuicLab.Android.Migration
