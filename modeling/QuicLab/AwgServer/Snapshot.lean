import QuicLab.AwgServer.Worker
import QuicLab.Go.Strings

/-!
# The status of the AWG worker

`Worker.Snapshot` reads the counters of its device from a textual dump, line by
line: a line `public_key=…` starts the section of a peer, and a peer is reported
when its section ends. When a peer was last known to be active is carried over
from one snapshot to the next, for the peers that are in both.

What the loop over the lines does is said once in terms of the sections of the
dump (`sections`), for any text: it reports the sections of enabled users in
their order, with the last value of each field (`snapshot_peers`), and remembers
what it reported (`snapshot_activity`).
-/

namespace QuicLab.AwgServer

open Go

variable {D : Type*}

/-- The zero value of a status. -/
def PeerStatus.zero : PeerStatus := ⟨[], [], 0, 0, 0, 0⟩

/-- What a `Snapshot` takes from its environment: what `IpcGet` returns, if it
    succeeds, the users in the order the map is iterated, with the times their
    enabling is checked at, and the time of the snapshot. -/
structure SnapshotEnv where
  dump : Option Bytes
  users : List (Time × User)
  now : Time

/-- The public key of a peer in hexadecimal; empty if it is not a key. -/
def publicHex (p : Peer) : Bytes :=
  match keyHex p.publicKey with
  | .error _ => []
  | .ok pub => pub

/-- The ids of the enabled users, by their public keys. -/
def ids (users : List (Time × User)) : Map Bytes Bytes :=
  users.foldl (fun ids u =>
    match u.2.enabledPeer u.1 with
    | none => ids
    | some p => ids.insert (publicHex p) u.2.id) ∅

/-- `confirmedActivity`: the client was active when it did a handshake, and when
    bytes were received from it. -/
def confirmedActivity (previous current : PeerStatus) (now : Time) : Time :=
  let seen := previous.activity
  let seen := if seen < current.handshake then current.handshake else seen
  if previous.id ≠ [] ∧ previous.tx < current.tx then now else seen

/-- A line of a section: `rx_bytes`, what the device received, is what the client
    sent. -/
def PeerStatus.read (p : PeerStatus) (line : Bytes × Bytes) : PeerStatus :=
  if line.1 = str "endpoint" then { p with source := line.2 }
  else if line.1 = str "rx_bytes" then { p with tx := UInt64.ofNat (parseUintValue line.2) }
  else if line.1 = str "tx_bytes" then { p with rx := UInt64.ofNat (parseUintValue line.2) }
  else if line.1 = str "last_handshake_time_sec" ∧ 0 < parseIntValue line.2 then
    { p with handshake := unixTime (parseIntValue line.2) }
  else p

/-- The state of the loop over the lines: the activity remembered, the peers
    reported, and the peer whose section is being read. -/
structure SnapshotLoop where
  activity : Map Bytes PeerStatus
  peers : List PeerStatus
  peer : Option PeerStatus

namespace SnapshotLoop

/-- `flush`: a section ends, and its peer is reported if it is that of a user. -/
def flush (now : Time) (s : SnapshotLoop) : SnapshotLoop :=
  match s.peer with
  | none => s
  | some p =>
    if p.id = [] then s
    else
      let previous := (s.activity.lookup p.id).getD .zero
      let p := { p with activity := confirmedActivity previous p now }
      ⟨s.activity.insert p.id p, s.peers ++ [p], some p⟩

/-- A line with a value. -/
def line (ids : Map Bytes Bytes) (now : Time) (s : SnapshotLoop) (line : Bytes × Bytes) :
    SnapshotLoop :=
  if line.1 = str "public_key" then
    { s.flush now with peer := some { PeerStatus.zero with id := (ids.lookup line.2).getD [] } }
  else { s with peer := s.peer.map (·.read line) }

end SnapshotLoop

namespace Worker

/-- `Worker.Snapshot`. -/
def snapshot (env : SnapshotEnv) (w : Worker D) : Except Error Status × Worker D :=
  match env.dump with
  | none => (.error (.new "cannot read AWG runtime"), w)
  | some raw =>
    let lines := (split raw (ascii '\n')).filterMap (cut · (ascii '='))
    let s := (lines.foldl (SnapshotLoop.line (ids env.users) env.now) ⟨w.activity, [], none⟩).flush
      env.now
    (.ok ⟨w.started, env.now, s.peers⟩,
      { w with activity := Map.filter (fun id _ => ∃ p ∈ s.peers, p.id = id) s.activity })

end Worker

/-! ## The sections of a dump -/

/-- The section of a peer in a dump: its public key, and the lines after it. -/
structure Section where
  key : Bytes
  lines : List (Bytes × Bytes)

/-- The lines before the first section, and the sections. -/
def group : List (Bytes × Bytes) → List (Bytes × Bytes) × List Section
  | [] => ([], [])
  | line :: lines =>
    if line.1 = str "public_key" then ([], ⟨line.2, (group lines).1⟩ :: (group lines).2)
    else (line :: (group lines).1, (group lines).2)

/-- The sections of a dump. -/
def sections (raw : Bytes) : List Section :=
  (group ((split raw (ascii '\n')).filterMap (cut · (ascii '=')))).2

namespace Section

/-- The values of a field, in their order. -/
def values (lines : List (Bytes × Bytes)) (field : Bytes) : List Bytes :=
  lines.filterMap fun line => if line.1 = field then some line.2 else none

/-- The address the peer was last heard from. -/
def endpoint (c : Section) : Bytes := (values c.lines (str "endpoint")).getLast?.getD []

/-- A counter of the section. -/
def counter (c : Section) (field : Bytes) : UInt64 :=
  ((values c.lines field).getLast?.map fun v => UInt64.ofNat (parseUintValue v)).getD 0

/-- The last handshake, the zero time if there was none. -/
def handshake (c : Section) : Time :=
  ((((values c.lines (str "last_handshake_time_sec")).map parseIntValue).filter (0 < ·)).getLast?.map
    unixTime).getD 0

/-- What a section says of the peer of the user `id`. -/
def status (id : Bytes) (c : Section) : PeerStatus where
  id := id
  source := c.endpoint
  handshake := c.handshake
  activity := 0
  tx := c.counter (str "rx_bytes")
  rx := c.counter (str "tx_bytes")

end Section

namespace PeerStatus

@[simp] theorem read_id (p : PeerStatus) (line : Bytes × Bytes) : (p.read line).id = p.id := by
  rw [read]
  split_ifs <;> rfl

@[simp] theorem read_activity (p : PeerStatus) (line : Bytes × Bytes) :
    (p.read line).activity = p.activity := by
  rw [read]
  split_ifs <;> rfl

theorem read_source (p : PeerStatus) (line : Bytes × Bytes) :
    (p.read line).source = if line.1 = str "endpoint" then line.2 else p.source := by
  rw [read]
  split_ifs <;> rfl

theorem read_tx (p : PeerStatus) (line : Bytes × Bytes) : (p.read line).tx =
    if line.1 = str "rx_bytes" then UInt64.ofNat (parseUintValue line.2) else p.tx := by
  have hne : str "endpoint" ≠ str "rx_bytes" := by decide
  rw [read]
  split_ifs with h₁ h₂ <;> first | rfl | exact absurd (h₁.symm.trans h₂) hne

theorem read_rx (p : PeerStatus) (line : Bytes × Bytes) : (p.read line).rx =
    if line.1 = str "tx_bytes" then UInt64.ofNat (parseUintValue line.2) else p.rx := by
  have hne : str "endpoint" ≠ str "tx_bytes" ∧ str "rx_bytes" ≠ str "tx_bytes" := by decide
  rw [read]
  split_ifs with h₁ h₂ h₂ h₃ <;>
    first | rfl | exact absurd (h₁.symm.trans h₂) hne.1 | exact absurd (h₂.symm.trans h₃) hne.2

theorem read_handshake (p : PeerStatus) (line : Bytes × Bytes) : (p.read line).handshake =
    if line.1 = str "last_handshake_time_sec" ∧ 0 < parseIntValue line.2 then
      unixTime (parseIntValue line.2) else p.handshake := by
  have hne : str "endpoint" ≠ str "last_handshake_time_sec" ∧
    str "rx_bytes" ≠ str "last_handshake_time_sec" ∧
    str "tx_bytes" ≠ str "last_handshake_time_sec" := by decide
  rw [read]
  split_ifs with h₁ h₂ h₂ h₃ h₃ h₄ <;>
    first
    | rfl
    | exact absurd (h₁.symm.trans h₂.1) hne.1
    | exact absurd (h₂.symm.trans h₃.1) hne.2.1
    | exact absurd (h₃.symm.trans h₄.1) hne.2.2

/-- What is read of a list where the last value wins. -/
theorem foldl_last {S X V : Type*} {f : S → X → S} {g : S → V} {e : X → Option V}
    (h : ∀ s x, g (f s x) = (e x).getD (g s)) (l : List X) (s : S) :
    g (l.foldl f s) = (l.filterMap e).getLast?.getD (g s) := by
  induction l generalizing s with
  | nil => rfl
  | cons x l ih =>
    rw [List.foldl_cons, ih, h]
    cases hx : e x with
    | none => rw [List.filterMap_cons_none hx, Option.getD_none]
    | some v =>
      rw [List.filterMap_cons_some hx, List.getLast?_cons, Option.getD_some, Option.getD_some]

section Fields

variable (p : PeerStatus) (lines : List (Bytes × Bytes))

theorem foldl_read_id : (lines.foldl read p).id = p.id := by
  induction lines generalizing p with
  | nil => rfl
  | cons line lines ih => rw [List.foldl_cons, ih, read_id]

theorem foldl_read_activity : (lines.foldl read p).activity = p.activity := by
  induction lines generalizing p with
  | nil => rfl
  | cons line lines ih => rw [List.foldl_cons, ih, read_activity]

theorem foldl_read_source : (lines.foldl read p).source =
    (Section.values lines (str "endpoint")).getLast?.getD p.source := by
  refine foldl_last (g := source) (fun p line => ?_) lines p
  rw [read_source]
  split_ifs <;> rfl

theorem filterMap_counter (field : Bytes) :
    lines.filterMap (fun line => if line.1 = field then
      some (UInt64.ofNat (parseUintValue line.2)) else none) =
    (Section.values lines field).map fun v => UInt64.ofNat (parseUintValue v) := by
  rw [Section.values, List.map_filterMap]
  refine List.filterMap_congr fun line _ => ?_
  split_ifs <;> rfl

theorem foldl_read_tx : (lines.foldl read p).tx =
    ((Section.values lines (str "rx_bytes")).getLast?.map fun v =>
      UInt64.ofNat (parseUintValue v)).getD p.tx := by
  rw [← List.getLast?_map, ← filterMap_counter]
  refine foldl_last (g := tx) (fun p line => ?_) lines p
  rw [read_tx]
  split_ifs <;> rfl

theorem foldl_read_rx : (lines.foldl read p).rx =
    ((Section.values lines (str "tx_bytes")).getLast?.map fun v =>
      UInt64.ofNat (parseUintValue v)).getD p.rx := by
  rw [← List.getLast?_map, ← filterMap_counter]
  refine foldl_last (g := rx) (fun p line => ?_) lines p
  rw [read_rx]
  split_ifs <;> rfl

theorem foldl_read_handshake : (lines.foldl read p).handshake =
    ((((Section.values lines (str "last_handshake_time_sec")).map parseIntValue).filter
      (0 < ·)).getLast?.map unixTime).getD p.handshake := by
  have hlist : ((((Section.values lines (str "last_handshake_time_sec")).map parseIntValue).filter
      (0 < ·)).map unixTime) = lines.filterMap fun line =>
        if line.1 = str "last_handshake_time_sec" ∧ 0 < parseIntValue line.2 then
          some (unixTime (parseIntValue line.2)) else none := by
    rw [Section.values, List.map_filterMap, ← List.filterMap_eq_filter, List.filterMap_filterMap,
      List.map_filterMap]
    refine List.filterMap_congr fun line _ => ?_
    by_cases h₁ : line.1 = str "last_handshake_time_sec" <;>
      by_cases h₂ : 0 < parseIntValue line.2 <;> simp [h₁, h₂, Option.guard]
  rw [← List.getLast?_map, hlist]
  refine foldl_last (g := handshake) (fun p line => ?_) lines p
  rw [read_handshake]
  split_ifs <;> rfl

end Fields

/-- The lines of a section, read one by one, give its status. -/
theorem foldl_read (id : Bytes) (c : Section) :
    c.lines.foldl read { zero with id := id } = c.status id := by
  have hid := foldl_read_id { zero with id := id } c.lines
  have hactivity := foldl_read_activity { zero with id := id } c.lines
  have hsource := foldl_read_source { zero with id := id } c.lines
  have htx := foldl_read_tx { zero with id := id } c.lines
  have hrx := foldl_read_rx { zero with id := id } c.lines
  have hhandshake := foldl_read_handshake { zero with id := id } c.lines
  generalize c.lines.foldl read { zero with id := id } = p at *
  cases p
  cases hid
  cases hactivity
  cases hsource
  cases htx
  cases hrx
  cases hhandshake
  rfl

end PeerStatus

/-! ## The loop -/

/-- What a dump says of the peers of enabled users. -/
def entries (ids : Map Bytes Bytes) (l : List Section) : List PeerStatus :=
  (l.map fun c => c.status ((ids.lookup c.key).getD [])).filter (·.id ≠ [])

/-- The status of a peer, with the activity that is confirmed given what was
    remembered. -/
def confirm (activity : Map Bytes PeerStatus) (now : Time) (p : PeerStatus) : PeerStatus :=
  { p with activity := confirmedActivity ((activity.lookup p.id).getD .zero) p now }

namespace SnapshotLoop

variable (ids : Map Bytes Bytes) (now : Time)

/-- The end of the section `c`. -/
def flushSection (s : SnapshotLoop) (c : Section) : SnapshotLoop :=
  flush now { s with peer := some (c.status ((ids.lookup c.key).getD [])) }

theorem flush_foldl (l : List (Bytes × Bytes)) (s : SnapshotLoop) :
    (l.foldl (line ids now) s).flush now = (group l).2.foldl (flushSection ids now)
      ({ s with peer := s.peer.map fun p => (group l).1.foldl PeerStatus.read p }.flush now) := by
  induction l generalizing s with
  | nil =>
    cases s with
    | mk activity peers peer => cases peer <;> rfl
  | cons x l ih =>
    rw [List.foldl_cons, ih, group, line]
    by_cases hkey : x.1 = str "public_key"
    · rw [if_pos hkey, if_pos hkey, List.foldl_cons, flushSection, ← PeerStatus.foldl_read]
      cases s with
      | mk activity peers peer => cases peer <;> rfl
    · rw [if_neg hkey, if_neg hkey, Option.map_map]
      rfl

variable {ids now}

theorem flushSection_unknown {s : SnapshotLoop} {c : Section}
    (h : (c.status ((ids.lookup c.key).getD [])).id = []) :
    flushSection ids now s c =
      { s with peer := some (c.status ((ids.lookup c.key).getD [])) } := by
  rw [flushSection, flush]
  exact if_pos h

theorem flushSection_known {s : SnapshotLoop} {c : Section} {p : PeerStatus}
    (hp : c.status ((ids.lookup c.key).getD []) = p) (h : p.id ≠ []) :
    flushSection ids now s c = ⟨s.activity.insert p.id (confirm s.activity now p),
      s.peers ++ [confirm s.activity now p], some (confirm s.activity now p)⟩ := by
  subst hp
  rw [flushSection, flush]
  exact if_neg h

/-- What the ends of the sections report and remember. -/
theorem foldl_flushSection {l : List Section} (hl : ((entries ids l).map (·.id)).Nodup)
    (s : SnapshotLoop) :
    (l.foldl (flushSection ids now) s).peers =
        s.peers ++ (entries ids l).map (confirm s.activity now) ∧
      ∀ id, (l.foldl (flushSection ids now) s).activity.lookup id =
        (((entries ids l).map (confirm s.activity now)).find? (·.id = id)).or
          (s.activity.lookup id) := by
  induction l generalizing s with
  | nil => exact ⟨(List.append_nil _).symm, fun _ => rfl⟩
  | cons c l ih =>
    generalize hp : c.status ((ids.lookup c.key).getD []) = p
    by_cases hid : p.id = []
    · have hent : entries ids (c :: l) = entries ids l := by
        rw [entries, List.map_cons, hp, List.filter_cons_of_neg (by simpa using hid)]
        rfl
      rw [hent] at hl ⊢
      rw [List.foldl_cons, flushSection_unknown (hp ▸ hid)]
      exact ih hl _
    · have hent : entries ids (c :: l) = p :: entries ids l := by
        rw [entries, List.map_cons, hp, List.filter_cons_of_pos (by simpa using hid)]
        rfl
      rw [hent, List.map_cons, List.nodup_cons] at hl
      -- The other peers have other ids, so the entry just made is not theirs.
      have hsame : ∀ q ∈ entries ids l,
          confirm (s.activity.insert p.id (confirm s.activity now p)) now q =
            confirm s.activity now q := fun q hq => by
        have hne : q.id ≠ p.id := fun h => hl.1 (List.mem_map.2 ⟨q, hq, h⟩)
        rw [confirm, Finmap.lookup_insert_of_ne _ hne]
        rfl
      obtain ⟨hpeers, hactivity⟩ := ih hl.2 (flushSection ids now s c)
      rw [List.foldl_cons, hent]
      rw [flushSection_known hp hid] at hpeers hactivity ⊢
      simp only [List.map_congr_left hsame] at hpeers hactivity
      refine ⟨?_, fun id => ?_⟩
      · rw [hpeers, List.map_cons, List.append_assoc, List.singleton_append]
      · rw [hactivity, List.map_cons, List.find?_cons, Map.lookup_insert']
        by_cases hpid : p.id = id
        · have hnone : ((entries ids l).map (confirm s.activity now)).find? (·.id = id) = none := by
            refine List.find?_eq_none.2 fun q hq hqid => hl.1 ?_
            obtain ⟨q', hq', rfl⟩ := List.mem_map.1 hq
            exact List.mem_map.2 ⟨q', hq', (of_decide_eq_true hqid).trans hpid.symm⟩
          have hpos : decide ((confirm s.activity now p).id = id) = true := decide_eq_true hpid
          rw [hnone, hpos, if_pos hpid.symm]
          rfl
        · have hneg : decide ((confirm s.activity now p).id = id) = false := decide_eq_false hpid
          rw [hneg, if_neg (Ne.symm hpid)]

end SnapshotLoop

/-! ## Snapshots -/

namespace SnapshotEnv

/-- What the dump of a snapshot says of the peers of enabled users. -/
def entries (env : SnapshotEnv) : List PeerStatus :=
  (env.dump.map fun raw => AwgServer.entries (ids env.users) (sections raw)).getD []

end SnapshotEnv

namespace Worker

variable {env : SnapshotEnv} {w : Worker D}

theorem snapshot_error (h : env.dump = none) :
    w.snapshot env = (.error (.new "cannot read AWG runtime"), w) := by
  rw [snapshot, h]

theorem started_snapshot (env : SnapshotEnv) (w : Worker D) :
    (w.snapshot env).2.started = w.started := by
  rw [snapshot]
  cases env.dump <;> rfl

/-- The peers a snapshot reports, and those the worker remembers. -/
theorem snapshot_ok (h : env.dump ≠ none) (hids : (env.entries.map (·.id)).Nodup) :
    (w.snapshot env).1 = .ok ⟨w.started, env.now, env.entries.map (confirm w.activity env.now)⟩ ∧
      ∀ id, (w.snapshot env).2.activity.lookup id =
        (env.entries.map (confirm w.activity env.now)).find? (·.id = id) := by
  cases hraw : env.dump with
  | none => exact absurd hraw h
  | some raw =>
    have hent : env.entries = AwgServer.entries (ids env.users) (sections raw) := by
      rw [SnapshotEnv.entries, hraw]
      rfl
    rw [hent] at hids ⊢
    obtain ⟨hpeers, hactivity⟩ : _ ∧ _ := SnapshotLoop.foldl_flushSection hids
      (s := ⟨w.activity, [], none⟩)
    rw [List.nil_append] at hpeers
    have hloop : (((split raw (ascii '\n')).filterMap (cut · (ascii '='))).foldl
        (SnapshotLoop.line (ids env.users) env.now) ⟨w.activity, [], none⟩).flush env.now =
        (sections raw).foldl (SnapshotLoop.flushSection (ids env.users) env.now)
          ⟨w.activity, [], none⟩ := SnapshotLoop.flush_foldl _ _ _ _
    rw [snapshot, hraw]
    simp only [hloop]
    generalize (sections raw).foldl (SnapshotLoop.flushSection (ids env.users) env.now)
      ⟨w.activity, [], none⟩ = s at *
    refine ⟨by rw [hpeers], fun id => ?_⟩
    rw [Map.lookup_filter, hactivity, hpeers]
    cases hfind : ((AwgServer.entries (ids env.users) (sections raw)).map
        (confirm w.activity env.now)).find? (·.id = id) with
    | some p =>
      have hmem := List.mem_of_find?_eq_some hfind
      have hid : p.id = id := by simpa using List.find?_some hfind
      rw [Option.some_or]
      exact Option.filter_eq_some_iff.2 ⟨rfl, decide_eq_true ⟨p, hmem, hid⟩⟩
    | none =>
      rw [Option.none_or, Option.filter_eq_none_iff]
      intro p _ hp
      obtain ⟨q, hq, hqid⟩ := of_decide_eq_true hp
      exact absurd (decide_eq_true hqid) (List.find?_eq_none.1 hfind q hq)

end Worker

end QuicLab.AwgServer
