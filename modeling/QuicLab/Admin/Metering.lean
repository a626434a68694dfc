import QuicLab.Admin.Store
import QuicLab.AwgServer.Activity
import QuicLab.System

/-!
# AWG byte accounting

The admin server adds up the bytes of AWG peers from the statuses the worker
writes: for each user, the differences of the counters of consecutive statuses.
The counters of a peer restart from 0 when it is removed and added again and
when the worker restarts; statuses may be read twice, too late, or not at all,
and users are disabled and enabled at any time (`Metering.system`).

* `Store.addCalls`: the calls of `userTraffic.add` an `ObserveAWG` makes, which
  are all it does to the buckets of a user (`Store.bucketsOf_observeAWG`).
* `Metering.bytes_of_run`: what is added for a user is never more than what the
  device counted; and in a stretch of fresh statuses of one worker it is the
  difference of the last counter and the first one.

The invariant (`Metering.Inv`) compares the counter remembered by the store, that
of the status on disk and that of the device, each with the bytes counted so far
when it was read.
-/

namespace QuicLab.Admin

open Go
open AwgServer (PeerStatus Status SnapshotEnv Worker)

/-! ## The calls of `add` -/

/-- A call of `userTraffic.add` for a user. -/
structure AddCall where
  id : Bytes
  tx : ℤ
  rx : ℤ

namespace Store

/-- The user is not skipped by `ObserveAWG`. -/
def Permits (s : Store) (id : Bytes) : Prop :=
  ∃ u, s.state.users.lookup id = some u ∧ ¬ (u.disabled ∨ ¬ u.allows (str "awg"))

instance (s : Store) (id : Bytes) : Decidable (s.Permits id) :=
  decidable_of_iff (∃ u ∈ s.state.users.lookup id, ¬ (u.disabled ∨ ¬ u.allows (str "awg"))) Iff.rfl

/-- The call of `add` for a peer that is reported, if its user is not skipped and
    was reported before. -/
def addCall (p : PeerStatus) (s : Store) : Option AddCall :=
  match s.state.users.lookup p.id with
  | none => none
  | some u =>
    if u.disabled ∨ ¬ u.allows (str "awg") then none
    else (s.awgPrevious.lookup p.id).map fun previous =>
      ⟨p.id, counted previous.tx p.tx, counted previous.rx p.rx⟩

/-- The calls of `add` in the loop of `ObserveAWG`. -/
def peerCalls (now : Time) : List PeerStatus → Store → List AddCall
  | [], _ => []
  | p :: ps, s => (s.addCall p).toList ++ peerCalls now ps (observePeer now (false, s) p).2

/-- The calls of `add` an `ObserveAWG` makes. -/
def addCalls (status : Status) (now : Time) (s : Store) : List AddCall :=
  if status.updated = 0 ∨ 5 * second < now - status.updated then []
  else peerCalls now status.peers (s.endPeers.takeStatus status)

theorem observePeer_snd (now : Time) (changed : Bool) (s : Store) (p : PeerStatus) :
    (observePeer now (changed, s) p).2 = (observePeer now (false, s) p).2 := by
  simp only [observePeer]
  split
  · rfl
  · split_ifs <;> rfl

/-- The store after the loop of `ObserveAWG`. -/
def peerStore (now : Time) (ps : List PeerStatus) (s : Store) : Store :=
  (ps.foldl (observePeer now) (false, s)).2

theorem peerStore_cons (now : Time) (p : PeerStatus) (ps : List PeerStatus) (s : Store) :
    peerStore now (p :: ps) s = peerStore now ps (observePeer now (false, s) p).2 := by
  have hflag : ∀ (ps : List PeerStatus) (acc : Bool × Store),
      (ps.foldl (observePeer now) acc).2 = peerStore now ps acc.2 := fun ps => by
    induction ps with
    | nil => exact fun acc => rfl
    | cons p ps ih =>
      intro acc
      have hcons : peerStore now (p :: ps) acc.2 =
        peerStore now ps (observePeer now (false, acc.2) p).2 := ih _
      rw [List.foldl_cons, ih, hcons]
      exact congrArg _ (observePeer_snd now acc.1 acc.2 p)
  exact hflag ps _

variable {s : Store}

theorem permits_iff {id : Bytes} {u : User} (h : s.state.users.lookup id = some u) :
    s.Permits id ↔ ¬ (u.disabled ∨ ¬ u.allows (str "awg")) := by
  rw [Permits, h]
  simp only [Option.some.injEq, exists_eq_left']

variable {p : PeerStatus}

theorem addCall_of_permits (h : s.Permits p.id) :
    s.addCall p = (s.awgPrevious.lookup p.id).map fun previous =>
      ⟨p.id, counted previous.tx p.tx, counted previous.rx p.rx⟩ := by
  obtain ⟨u, hu, hperm⟩ := h
  rw [addCall, hu]
  exact if_neg hperm

theorem addCall_of_not_permits (h : ¬ s.Permits p.id) :
    s.addCall p = none := by
  rw [addCall]
  split
  · rfl
  next u hu => exact if_pos (not_not.1 (mt (permits_iff hu).2 h))

/-- A peer whose user is skipped changes nothing. -/
theorem observePeer_of_not_permits (h : ¬ s.Permits p.id) (now : Time) :
    (observePeer now (false, s) p).2 = s := by
  simp only [observePeer]
  split
  · rfl
  next u hu => rw [if_pos (not_not.1 (mt (permits_iff hu).2 h))]

/-- A peer whose user is not skipped is counted; what is saved of a connection
    does not decide who is skipped. -/
theorem observePeer_of_permits (h : s.Permits p.id) (now : Time) :
    (observePeer now (false, s) p).2.awgPrevious = s.awgPrevious.insert p.id p ∧
      (observePeer now (false, s) p).2.stats = (s.countPeer now p).stats ∧
      ∀ id, (observePeer now (false, s) p).2.Permits id ↔ s.Permits id := by
  obtain ⟨u, hu, hperm⟩ := h
  have hconn : ∀ t transport source id,
      (connected p.id u t transport source (s.countPeer now p)).Permits id ↔ s.Permits id := by
    intro t transport source id
    by_cases hid : id = p.id
    · subst hid
      have hlook : (connected p.id u t transport source (s.countPeer now p)).state.users.lookup
          p.id = some { u with
            lastConnected := t, lastTransport := transport, lastSource := source } :=
        Finmap.lookup_insert _
      rw [permits_iff hlook, permits_iff hu]
      rfl
    · have hlook : (connected p.id u t transport source (s.countPeer now p)).state.users.lookup
          id = s.state.users.lookup id := Finmap.lookup_insert_of_ne _ hid
      rw [Permits, hlook, Permits]
  simp only [observePeer, hu, if_neg hperm]
  split_ifs
  · exact ⟨rfl, rfl, hconn _ _ _⟩
  · exact ⟨rfl, rfl, hconn _ _ _⟩
  · exact ⟨rfl, rfl, fun _ => Iff.rfl⟩

theorem permits_observePeer (now : Time) (s : Store) (p : PeerStatus) (id : Bytes) :
    (observePeer now (false, s) p).2.Permits id ↔ s.Permits id := by
  by_cases h : s.Permits p.id
  · exact (observePeer_of_permits h now).2.2 id
  · rw [observePeer_of_not_permits h]

theorem awgPrevious_observePeer_of_ne (now : Time) (s : Store) {id : Bytes} (hid : p.id ≠ id) :
    (observePeer now (false, s) p).2.awgPrevious.lookup id =
      s.awgPrevious.lookup id := by
  by_cases h : s.Permits p.id
  · rw [(observePeer_of_permits h now).1, Finmap.lookup_insert_of_ne _ hid.symm]
  · rw [observePeer_of_not_permits h]

theorem filter_addCall_of_ne {id : Bytes} (hid : p.id ≠ id) :
    (s.addCall p).toList.filter (·.id = id) = [] := by
  refine List.filter_eq_nil_iff.2 fun c hc => ?_
  by_cases h : s.Permits p.id
  · rw [addCall_of_permits h, Option.mem_toList] at hc
    obtain ⟨previous, -, rfl⟩ := Option.map_eq_some_iff.1 hc
    simpa using hid
  · rw [addCall_of_not_permits h] at hc
    cases hc

theorem filter_addCall_self (s : Store) (p : PeerStatus) :
    (s.addCall p).toList.filter (·.id = p.id) = (s.addCall p).toList := by
  refine List.filter_eq_self.2 fun c hc => ?_
  by_cases h : s.Permits p.id
  · rw [addCall_of_permits h, Option.mem_toList] at hc
    obtain ⟨previous, -, rfl⟩ := Option.map_eq_some_iff.1 hc
    simp
  · rw [addCall_of_not_permits h] at hc
    cases hc

/-- The call for a peer depends on what is kept of its user only. -/
theorem addCall_congr {s s' : Store} (hperm : s.Permits p.id ↔ s'.Permits p.id)
    (hprev : s.awgPrevious.lookup p.id = s'.awgPrevious.lookup p.id) :
    s.addCall p = s'.addCall p := by
  by_cases h : s.Permits p.id
  · rw [addCall_of_permits h, addCall_of_permits (hperm.1 h), hprev]
  · rw [addCall_of_not_permits h, addCall_of_not_permits (mt hperm.2 h)]

section Loop

variable (now : Time) {ps : List PeerStatus}

theorem permits_peerStore (ps : List PeerStatus) (s : Store) (id : Bytes) :
    (peerStore now ps s).Permits id ↔ s.Permits id := by
  induction ps generalizing s with
  | nil => rfl
  | cons p ps ih => rw [peerStore_cons, ih, permits_observePeer]

/-- A user that is not reported is left alone. -/
theorem peerStore_of_notMem {id : Bytes} (h : ∀ p ∈ ps, p.id ≠ id) (s : Store) :
    (peerStore now ps s).awgPrevious.lookup id = s.awgPrevious.lookup id ∧
      (peerCalls now ps s).filter (·.id = id) = [] := by
  induction ps generalizing s with
  | nil => exact ⟨rfl, rfl⟩
  | cons p ps ih =>
    have hp : p.id ≠ id := h p List.mem_cons_self
    obtain ⟨hprev, hcalls⟩ := ih (fun q hq => h q (List.mem_cons_of_mem _ hq))
      (observePeer now (false, s) p).2
    rw [peerStore_cons, peerCalls, List.filter_append, hprev, hcalls, List.append_nil]
    exact ⟨awgPrevious_observePeer_of_ne now s hp, filter_addCall_of_ne hp⟩

/-- A peer that is reported is remembered and counted, unless its user is
    skipped. -/
theorem peerStore_of_mem (hps : (ps.map (·.id)).Nodup) {p : PeerStatus} (hp : p ∈ ps) (s : Store) :
    (s.Permits p.id → (peerStore now ps s).awgPrevious.lookup p.id = some p) ∧
      (¬ s.Permits p.id →
        (peerStore now ps s).awgPrevious.lookup p.id = s.awgPrevious.lookup p.id) ∧
      (peerCalls now ps s).filter (·.id = p.id) = (s.addCall p).toList := by
  induction ps generalizing s with
  | nil => cases hp
  | cons q ps ih =>
    rw [List.map_cons, List.nodup_cons] at hps
    rw [peerStore_cons, peerCalls, List.filter_append]
    rcases List.mem_cons.1 hp with rfl | hp
    · have hother : ∀ q ∈ ps, q.id ≠ p.id := fun q hq heq =>
        hps.1 (List.mem_map.2 ⟨q, hq, heq⟩)
      obtain ⟨hprev, hcalls⟩ := peerStore_of_notMem now hother
        (observePeer now (false, s) p).2
      rw [hprev, hcalls, List.append_nil]
      refine ⟨fun h => ?_, fun h => ?_, filter_addCall_self s p⟩
      · rw [(observePeer_of_permits h now).1, Finmap.lookup_insert]
      · rw [observePeer_of_not_permits h]
    · have hne : q.id ≠ p.id := fun heq => hps.1 (List.mem_map.2 ⟨p, hp, heq.symm⟩)
      have hperm := permits_observePeer now s q p.id
      have hprev := awgPrevious_observePeer_of_ne now s hne
      obtain ⟨hkept, hskipped, hcalls⟩ := ih hps.2 hp (observePeer now (false, s) q).2
      rw [filter_addCall_of_ne hne, List.nil_append, hcalls, addCall_congr hperm hprev]
      exact ⟨fun h => hkept (hperm.2 h), fun h => (hskipped (mt hperm.1 h)).trans hprev, rfl⟩

end Loop

/-! ## The buckets -/

/-- The buckets of a user. -/
def bucketsOf (s : Store) (id : Bytes) : Fin 600 → TrafficBucket :=
  ((s.stats.lookup id).getD .new).buckets

/-- What a call of `add` makes of the buckets. -/
def addBuckets (now : Time) (buckets : Fin 600 → TrafficBucket) (c : AddCall) :
    Fin 600 → TrafficBucket := (UserTraffic.add now c.tx c.rx ⟨buckets, ∅⟩).buckets

theorem bucketsOf_observePeer (now : Time) (s : Store) (p : PeerStatus) (id : Bytes) :
    bucketsOf (observePeer now (false, s) p).2 id =
      ((s.addCall p).toList.filter (·.id = id)).foldl (addBuckets now) (s.bucketsOf id) := by
  by_cases h : s.Permits p.id
  · obtain ⟨-, hstats, -⟩ := observePeer_of_permits h now
    by_cases hid : p.id = id
    · subst hid
      rw [bucketsOf, hstats, filter_addCall_self, addCall_of_permits h, countPeer,
        Finmap.lookup_insert, Option.getD_some]
      split_ifs <;> cases s.awgPrevious.lookup p.id <;> rfl
    · rw [bucketsOf, hstats, filter_addCall_of_ne hid, countPeer,
        Finmap.lookup_insert_of_ne _ (Ne.symm hid)]
      rfl
  · rw [observePeer_of_not_permits h, addCall_of_not_permits h]
    rfl

theorem bucketsOf_peerStore (now : Time) (ps : List PeerStatus) (s : Store) (id : Bytes) :
    (peerStore now ps s).bucketsOf id =
      ((peerCalls now ps s).filter (·.id = id)).foldl (addBuckets now) (s.bucketsOf id) := by
  induction ps generalizing s with
  | nil => rfl
  | cons p ps ih =>
    rw [peerStore_cons, ih, bucketsOf_observePeer, peerCalls, List.filter_append,
      List.foldl_append]

theorem bucketsOf_endPeers (s : Store) (id : Bytes) : s.endPeers.bucketsOf id = s.bucketsOf id := by
  rw [bucketsOf, endPeers, Map.lookup_mapVals, bucketsOf]
  cases s.stats.lookup id <;> rfl

/-- All that `ObserveAWG` does to the buckets of a user are the calls of `add`. -/
theorem bucketsOf_observeAWG (status : Status) (now : Time) (err : Option String) (s : Store)
    (id : Bytes) : (s.observeAWG status now err).bucketsOf id =
      ((s.addCalls status now).filter (·.id = id)).foldl (addBuckets now) (s.bucketsOf id) := by
  rw [observeAWG, addCalls]
  split_ifs
  · exact bucketsOf_endPeers s id
  · have hloop := bucketsOf_peerStore now status.peers (s.endPeers.takeStatus status) id
    have htake : (s.endPeers.takeStatus status).bucketsOf id = s.bucketsOf id :=
      bucketsOf_endPeers s id
    rw [htake] at hloop
    rw [← hloop]
    dsimp only
    split_ifs
    · cases err <;> rfl
    · rfl

theorem awgStarted_peerStore (now : Time) (ps : List PeerStatus) (s : Store) :
    (peerStore now ps s).awgStarted = s.awgStarted := by
  induction ps generalizing s with
  | nil => rfl
  | cons p ps ih =>
    rw [peerStore_cons, ih]
    simp only [observePeer]
    split
    · rfl
    · split_ifs <;> rfl

/-- A status is fresh: it is neither missing nor older than five seconds. -/
def Fresh (status : Status) (now : Time) : Prop :=
  ¬ (status.updated = 0 ∨ 5 * second < now - status.updated)

instance (status : Status) (now : Time) : Decidable (Fresh status now) :=
  inferInstanceAs (Decidable (¬ (status.updated = 0 ∨ 5 * second < now - status.updated)))

variable {status : Status} {now : Time}

/-- What `ObserveAWG` remembers of a fresh status is what its loop does. -/
theorem observeAWG_fresh (h : Fresh status now) (s : Store) (err : Option String) :
    (s.observeAWG status now err).awgPrevious =
        (peerStore now status.peers (s.endPeers.takeStatus status)).awgPrevious ∧
      (s.observeAWG status now err).awgStarted = status.started := by
  have hstarted := awgStarted_peerStore now status.peers (s.endPeers.takeStatus status)
  rw [observeAWG, if_neg h]
  dsimp only
  split_ifs
  · cases err <;> exact ⟨rfl, hstarted⟩
  · exact ⟨rfl, hstarted⟩

/-- `ObserveAWG` does not decide who is skipped. -/
theorem permits_observeAWG (h : Fresh status now) (s : Store) (err : Option String) (id : Bytes) :
    (s.observeAWG status now err).Permits id ↔ s.Permits id := by
  have hloop := permits_peerStore now status.peers (s.endPeers.takeStatus status) id
  rw [observeAWG, if_neg h]
  dsimp only
  split_ifs
  · cases err <;> exact hloop
  · exact hloop

theorem observeAWG_stale (h : ¬ Fresh status now) (s : Store) (err : Option String) :
    s.observeAWG status now err = s.endPeers :=
  if_pos (not_not.1 h)

theorem addCalls_fresh (h : Fresh status now) (s : Store) :
    s.addCalls status now = peerCalls now status.peers (s.endPeers.takeStatus status) := if_neg h

theorem addCalls_stale (h : ¬ Fresh status now) (s : Store) :
    s.addCalls status now = [] := if_pos (not_not.1 h)

end Store

namespace Store

variable {status : Status}

/-- What is remembered when a status is taken was remembered before. -/
theorem awgPrevious_takeStatus {s : Store} {id : Bytes} {p : PeerStatus}
    (h : (s.endPeers.takeStatus status).awgPrevious.lookup id = some p) :
    s.awgPrevious.lookup id = some p := by
  simp only [takeStatus] at h
  split_ifs at h
  · cases h
  · exact h

/-- What `ObserveAWG` does for a user: nothing, but that it may forget the user;
    or the peer reported is remembered, and counted if there was one before. -/
theorem observeAWG_user (hps : (status.peers.map (·.id)).Nodup) (now : Time) (err : Option String)
    (s : Store) (id : Bytes) :
    ((s.addCalls status now).filter (·.id = id) = [] ∧
      ∀ p, (s.observeAWG status now err).awgPrevious.lookup id = some p →
        s.awgPrevious.lookup id = some p) ∨
    ∃ p ∈ status.peers, p.id = id ∧
      (s.observeAWG status now err).awgPrevious.lookup id = some p ∧
      ((s.addCalls status now).filter (·.id = id) = [] ∨
        ∃ previous, s.awgPrevious.lookup id = some previous ∧
          (s.addCalls status now).filter (·.id = id) =
            [⟨id, counted previous.tx p.tx, counted previous.rx p.rx⟩]) := by
  by_cases hfresh : Fresh status now
  · obtain ⟨hprev, -⟩ := observeAWG_fresh hfresh s err
    rw [hprev, addCalls_fresh hfresh]
    by_cases hmem : ∃ p ∈ status.peers, p.id = id
    · obtain ⟨p, hp, rfl⟩ := hmem
      obtain ⟨hkept, hskipped, hcalls⟩ := peerStore_of_mem now hps hp
        (s.endPeers.takeStatus status)
      rw [hcalls]
      by_cases hperm : (s.endPeers.takeStatus status).Permits p.id
      · refine .inr ⟨p, hp, rfl, hkept hperm, ?_⟩
        rw [addCall_of_permits hperm]
        cases hlook : (s.endPeers.takeStatus status).awgPrevious.lookup p.id with
        | none => exact .inl rfl
        | some previous => exact .inr ⟨previous, awgPrevious_takeStatus hlook, rfl⟩
      · rw [hskipped hperm, addCall_of_not_permits hperm]
        exact .inl ⟨rfl, fun p hp => awgPrevious_takeStatus hp⟩
    · obtain ⟨hsame, hcalls⟩ := peerStore_of_notMem now
        (fun p hp heq => hmem ⟨p, hp, heq⟩) (s.endPeers.takeStatus status)
      rw [hsame, hcalls]
      exact .inl ⟨rfl, fun p hp => awgPrevious_takeStatus hp⟩
  · rw [observeAWG_stale hfresh, addCalls_stale hfresh]
    exact .inl ⟨rfl, fun p hp => hp⟩

/-- What a fresh status of the same worker adds for a user that is not skipped
    and was reported before. -/
theorem observeAWG_counts (hps : (status.peers.map (·.id)).Nodup) {now : Time}
    (hfresh : Fresh status now) {s : Store} (hstarted : s.awgStarted = status.started)
    {p previous : PeerStatus} (hp : p ∈ status.peers) (hperm : s.Permits p.id)
    (hprev : s.awgPrevious.lookup p.id = some previous) :
    (s.addCalls status now).filter (·.id = p.id) =
      [⟨p.id, counted previous.tx p.tx, counted previous.rx p.rx⟩] := by
  have htake : (s.endPeers.takeStatus status).awgPrevious.lookup p.id = some previous := by
    have hsame : s.endPeers.awgStarted = status.started := hstarted
    simp only [takeStatus]
    rw [if_neg (not_not.2 hsame)]
    exact hprev
  rw [addCalls_fresh hfresh, (peerStore_of_mem now hps hp _).2.2,
    addCall_of_permits (show (s.endPeers.takeStatus status).Permits p.id from hperm), htake]
  rfl

/-- A fresh status is remembered for the users it reports and that are not
    skipped. -/
theorem observeAWG_remembers (hps : (status.peers.map (·.id)).Nodup) {now : Time}
    (hfresh : Fresh status now) {s : Store} {p : PeerStatus} (hp : p ∈ status.peers)
    (hperm : s.Permits p.id) (err : Option String) :
    (s.observeAWG status now err).awgPrevious.lookup p.id = some p := by
  rw [(observeAWG_fresh hfresh s err).1]
  exact (peerStore_of_mem now hps hp _).1 hperm

/-- What is added is the difference of the counters as an `int`. -/
theorem counted_eq {before after : UInt64} (h : before ≤ after) :
    counted before after = ((after.toNat - before.toNat : ℕ) : ℤ).bmod (2 ^ 64) := by
  rw [counted, if_pos h, UInt64.toNat_sub_of_le _ _ h]

/-- What is added is at most the difference of the counters. -/
theorem toNat_counted_le (before after : UInt64) :
    (counted before after).toNat ≤ after.toNat - before.toNat := by
  by_cases h : before ≤ after
  · rw [counted_eq h, Int.bmod_def]
    have hlt := after.toNat_lt
    split_ifs <;> omega
  · rw [counted, if_neg h]
    exact Nat.zero_le _

/-- It is that difference, if that is below `2 ^ 63`. -/
theorem toNat_counted {before after : UInt64} (h : before ≤ after)
    (hlt : after.toNat - before.toNat < 2 ^ 63) :
    (counted before after).toNat = after.toNat - before.toNat := by
  rw [counted_eq h, Int.bmod_def]
  split_ifs <;> omega

end Store

/-! ## The device, the worker and the store -/

/-- The two directions of traffic. -/
inductive Direction where
  | tx
  | rx

namespace Direction

/-- The number of a pair. -/
def pick {α : Type*} : Direction → α × α → α
  | tx, x => x.1
  | rx, x => x.2

/-- The counter of a status. -/
def counter : Direction → PeerStatus → UInt64
  | tx, p => p.tx
  | rx, p => p.rx

/-- The number a call of `add` adds. -/
def amount : Direction → AddCall → ℤ
  | tx, c => c.tx
  | rx, c => c.rx

end Direction

/-- The whole system: the counters of the device by user, the worker, the status
    it last wrote, and the store. -/
structure Metering where
  counters : Bytes → ℕ × ℕ
  worker : Worker Unit
  file : Status
  store : Store

namespace Metering

/-- What may happen. -/
inductive Act where
  /-- The device counts bytes of a peer. -/
  | traffic (id : Bytes) (bytes : ℕ × ℕ)
  /-- A peer is removed from the device and added again. -/
  | reset (id : Bytes)
  /-- The worker restarts. -/
  | restart (started : Time)
  /-- The worker takes a snapshot and writes it. -/
  | publish (env : SnapshotEnv)
  /-- The store reads the status, and makes calls of `add`. -/
  | observe (now : Time) (calls : List AddCall)
  /-- The store cannot read the status. -/
  | unreadable (now : Time) (calls : List AddCall)
  /-- An administrator changes users. -/
  | change (state : DiskState)

/-- The status of a file that cannot be read. -/
def noStatus : Status := ⟨0, 0, []⟩

/-- The steps. A snapshot has the counters of the device, of one peer for each user
    at most. -/
inductive Step : Metering → Act → Metering → Prop
  | traffic (m : Metering) (id : Bytes) (bytes : ℕ × ℕ) : Step m (.traffic id bytes)
      { m with counters := Function.update m.counters id (m.counters id + bytes) }
  | reset (m : Metering) (id : Bytes) : Step m (.reset id)
      { m with counters := Function.update m.counters id 0 }
  | restart (m : Metering) (started : Time) (worker : Worker Unit) : worker.activity = ∅ →
      worker.started = started → Step m (.restart started)
        { m with counters := fun _ => 0, worker := worker }
  | publish {m : Metering} {env : SnapshotEnv} {status : Status} :
      (env.entries.map (·.id)).Nodup →
      (∀ p ∈ env.entries, (p.tx.toNat, p.rx.toNat) = m.counters p.id) →
      (m.worker.snapshot env).1 = .ok status → Step m (.publish env)
        { m with worker := (m.worker.snapshot env).2, file := status }
  | observe (m : Metering) (now : Time) (err : Option String) :
      Step m (.observe now (m.store.addCalls m.file now))
        { m with store := m.store.observeAWG m.file now err }
  | unreadable (m : Metering) (now : Time) (err : Option String) :
      Step m (.unreadable now (m.store.addCalls noStatus now))
        { m with store := m.store.observeAWG noStatus now err }
  | change (m : Metering) (state : DiskState) :
      Step m (.change state) { m with store := { m.store with state := state } }

/-- At first nothing has been counted, written or observed. -/
def Initial (m : Metering) : Prop :=
  m.counters = (fun _ => 0) ∧ m.file = noStatus ∧ m.store.awgPrevious = ∅

/-- The runs of the system. -/
def system : System Metering Act where
  init := Initial
  step := Step

/-- The bytes of a user the device counted. -/
def Act.counted (d : Direction) (id : Bytes) : Act → ℕ
  | .traffic id' bytes => if id' = id then d.pick bytes else 0
  | _ => 0

/-- The calls of `add`. -/
def Act.calls : Act → List AddCall
  | .observe _ calls => calls
  | .unreadable _ calls => calls
  | _ => []

/-- The bytes of a user the device counted, over all epochs. -/
def counted (d : Direction) (id : Bytes) (as : List Act) : ℕ := (as.map (Act.counted d id)).sum

/-- The bytes added to the traffic of a user. -/
def added (d : Direction) (id : Bytes) (as : List Act) : ℕ :=
  (((as.flatMap Act.calls).filter (·.id = id)).map fun c => (d.amount c).toNat).sum

/-! ## The bound -/

theorem counted_snoc (d : Direction) (id : Bytes) (as : List Act) (a : Act) :
    counted d id (as ++ [a]) = counted d id as + a.counted d id := by
  rw [counted, List.map_append, List.sum_append, List.map_singleton, List.sum_singleton, counted]

theorem added_snoc (d : Direction) (id : Bytes) (as : List Act) (a : Act) :
    added d id (as ++ [a]) =
      added d id as + ((a.calls.filter (·.id = id)).map fun c => (d.amount c).toNat).sum := by
  rw [added, List.flatMap_append, List.filter_append, List.map_append, List.sum_append,
    List.flatMap_singleton, added]

/-- The counter of the device. -/
def counter (m : Metering) (d : Direction) (id : Bytes) : ℕ := d.pick (m.counters id)

/-- A counter `v` that was read when `n` bytes had been counted: the bytes counted
    since are at least those the counter grew by. -/
def Read (n v total now : ℕ) : Prop := n + (now - v) ≤ total

/-- The invariant, for a user: `n` bytes had been counted when the status on disk
    was written, and for the status the store remembers, all that was added had
    been counted before. -/
structure Inv (d : Direction) (id : Bytes) (as : List Act) (m : Metering) (n : ℕ) : Prop where
  nodup : (m.file.peers.map (·.id)).Nodup
  added_le : added d id as ≤ n
  le_counted : n ≤ counted d id as
  file : ∀ p ∈ m.file.peers, p.id = id →
    Read n (d.counter p).toNat (counted d id as) (m.counter d id)
  previous : ∀ p, m.store.awgPrevious.lookup id = some p → ∃ k, added d id as ≤ k ∧
    Read k (d.counter p).toNat (counted d id as) (m.counter d id) ∧
    ∀ q ∈ m.file.peers, q.id = id → Read k (d.counter p).toNat n (d.counter q).toNat

theorem Read.grow {n v total now b now' : ℕ} (h : Read n v total now) (hnow : now' ≤ now + b) :
    Read n v (total + b) now' := by
  rw [Read] at h ⊢
  omega

theorem amount_counted (d : Direction) (id : Bytes) (previous p : PeerStatus) :
    d.amount ⟨id, Store.counted previous.tx p.tx, Store.counted previous.rx p.rx⟩ =
      Store.counted (d.counter previous) (d.counter p) := by
  cases d <;> rfl

variable {d : Direction} {id : Bytes} {as : List Act} {m m' : Metering} {a : Act} {n : ℕ}

/-- The device counts bytes, or a counter restarts. -/
theorem Inv.device (h : Inv d id as m n) (hfile : m'.file = m.file) (hstore : m'.store = m.store)
    (hcalls : a.calls = []) (hcounter : m'.counter d id ≤ m.counter d id + a.counted d id) :
    Inv d id (as ++ [a]) m' n := by
  have hadded : added d id (as ++ [a]) = added d id as := by
    rw [added_snoc, hcalls]
    rfl
  refine ⟨hfile ▸ h.nodup, hadded ▸ h.added_le, ?_, fun p hp hid => ?_, fun p hp => ?_⟩
  · rw [counted_snoc]
    exact h.le_counted.trans (Nat.le_add_right _ _)
  · rw [counted_snoc]
    exact (h.file p (hfile ▸ hp) hid).grow hcounter
  · obtain ⟨k, hk, hread, hq⟩ := h.previous p (hstore ▸ hp)
    rw [hadded, counted_snoc, hfile]
    exact ⟨k, hk, hread.grow hcounter, hq⟩

/-- The store forgets, at most. -/
theorem Inv.kept (h : Inv d id as m n) (hfile : m'.file = m.file)
    (hcounters : m'.counters = m.counters) (hcalls : a.calls.filter (·.id = id) = [])
    (hcounted : a.counted d id = 0) (hprev : ∀ p, m'.store.awgPrevious.lookup id = some p →
      m.store.awgPrevious.lookup id = some p) : Inv d id (as ++ [a]) m' n := by
  have hadded : added d id (as ++ [a]) = added d id as := by
    rw [added_snoc, hcalls]
    rfl
  have hcount : counted d id (as ++ [a]) = counted d id as := by rw [counted_snoc, hcounted]; rfl
  have hcounter : m'.counter d id = m.counter d id := by rw [counter, hcounters, counter]
  refine ⟨hfile ▸ h.nodup, hadded ▸ h.added_le, hcount ▸ h.le_counted, fun p hp hid => ?_,
    fun p hp => ?_⟩
  · rw [hcount, hcounter]
    exact h.file p (hfile ▸ hp) hid
  · rw [hadded, hcount, hcounter, hfile]
    exact h.previous p (hprev p hp)

/-- The store remembers the status on disk, and may add the growth of the
    counter since the one it remembered. -/
theorem Inv.observed (h : Inv d id as m n) (hfile : m'.file = m.file)
    (hcounters : m'.counters = m.counters) (hcounted : a.counted d id = 0) {p : PeerStatus}
    (hp : p ∈ m.file.peers) (hid : p.id = id) (hnew : m'.store.awgPrevious.lookup id = some p)
    (hcalls : a.calls.filter (·.id = id) = [] ∨
      ∃ previous, m.store.awgPrevious.lookup id = some previous ∧ a.calls.filter (·.id = id) =
        [⟨id, Store.counted previous.tx p.tx, Store.counted previous.rx p.rx⟩]) :
    Inv d id (as ++ [a]) m' n := by
  have hcount : counted d id (as ++ [a]) = counted d id as := by rw [counted_snoc, hcounted]; rfl
  have hcounter : m'.counter d id = m.counter d id := by rw [counter, hcounters, counter]
  have hadded : added d id (as ++ [a]) ≤ n := by
    rw [added_snoc]
    rcases hcalls with hnone | ⟨previous, hprev, hone⟩
    · rw [hnone]
      exact h.added_le
    · obtain ⟨k, hk, -, hread⟩ := h.previous previous hprev
      have hle := Store.toNat_counted_le (d.counter previous) (d.counter p)
      have hfile := hread p hp hid
      rw [hone, List.map_singleton, List.sum_singleton, amount_counted]
      rw [Read] at hfile
      omega
  refine ⟨hfile ▸ h.nodup, hadded, hcount ▸ h.le_counted, fun q hq hqid => ?_, fun q hq => ?_⟩
  · rw [hcount, hcounter]
    exact h.file q (hfile ▸ hq) hqid
  · cases hnew.symm.trans hq
    rw [hcount, hcounter, hfile]
    refine ⟨n, hadded, h.file p hp hid, fun q hq hqid => ?_⟩
    have hqp : q = p := List.inj_on_of_nodup_map h.nodup hq hp (hqid.trans hid.symm)
    rw [hqp, Read, Nat.sub_self]
    exact le_rfl

/-- The worker writes the counters of the device, once for each user. -/
theorem file_of_publish {env : SnapshotEnv} {status : Status}
    (hnodup : (env.entries.map (·.id)).Nodup)
    (hdump : ∀ p ∈ env.entries, (p.tx.toNat, p.rx.toNat) = m.counters p.id)
    (hok : (m.worker.snapshot env).1 = .ok status) :
    (status.peers.map (·.id)).Nodup ∧
      ∀ d, ∀ q ∈ status.peers, (d.counter q).toNat = m.counter d q.id := by
  have hraw : env.dump ≠ none := fun hnone => by
    rw [Worker.snapshot_error hnone] at hok
    cases hok
  rw [(Worker.snapshot_ok hraw hnodup).1] at hok
  cases hok
  refine ⟨?_, fun d q hq => ?_⟩
  · rw [List.map_map]
    exact hnodup
  · obtain ⟨p, hp, rfl⟩ := List.mem_map.1 hq
    have hpair := hdump p hp
    cases d
    · exact congrArg Prod.fst hpair
    · exact congrArg Prod.snd hpair

/-- The worker writes a status. -/
theorem Inv.published (h : Inv d id as m n) {env : SnapshotEnv} {status : Status}
    (hnodup : (status.peers.map (·.id)).Nodup)
    (hread : ∀ q ∈ status.peers, (d.counter q).toNat = m.counter d q.id) :
    Inv d id (as ++ [.publish env])
      { m with worker := (m.worker.snapshot env).2, file := status } (counted d id as) := by
  have hcount : counted d id (as ++ [.publish env]) = counted d id as := counted_snoc d id as _
  have hadded : added d id (as ++ [.publish env]) = added d id as := added_snoc d id as _
  refine ⟨hnodup, ?_, hcount.ge, fun q hq hid => ?_, fun p hp => ?_⟩
  · rw [hadded]
    exact h.added_le.trans h.le_counted
  · rw [hcount, hread q hq, hid, Read, counter, counter, Nat.sub_self]
    exact le_rfl
  · obtain ⟨k, hk, hprev, -⟩ := h.previous p hp
    rw [hadded, hcount]
    refine ⟨k, hk, hprev, fun q hq hid => ?_⟩
    rw [hread q hq, hid]
    exact hprev

theorem Inv.step (h : Inv d id as m n) (hstep : Step m a m') :
    ∃ n', Inv d id (as ++ [a]) m' n' := by
  cases hstep with
  | traffic id' bytes =>
    refine ⟨n, h.device rfl rfl rfl ?_⟩
    simp only [counter, Act.counted, Function.update_apply, eq_comm]
    split_ifs with hid
    · subst hid
      cases d <;> exact le_rfl
    · exact le_rfl
  | reset id' =>
    refine ⟨n, h.device rfl rfl rfl ?_⟩
    simp only [counter, Act.counted, Function.update_apply]
    split_ifs
    · cases d <;> exact Nat.zero_le _
    · exact le_rfl
  | restart started worker _ _ =>
    refine ⟨n, h.device rfl rfl rfl ?_⟩
    cases d <;> exact Nat.zero_le _
  | publish hnodup hdump hok =>
    have hfile := file_of_publish hnodup hdump hok
    exact ⟨_, h.published hfile.1 (hfile.2 d)⟩
  | observe now err =>
    rcases m.store.observeAWG_user h.nodup now err id with
      ⟨hcalls, hprev⟩ | ⟨p, hp, hid, hnew, hcalls⟩
    · exact ⟨n, h.kept rfl rfl hcalls rfl hprev⟩
    · exact ⟨n, h.observed rfl rfl rfl hp hid hnew hcalls⟩
  | unreadable now err =>
    have hstale : ¬ Store.Fresh noStatus now := fun hfresh => hfresh (.inl rfl)
    refine ⟨n, h.kept rfl rfl ?_ rfl fun p hp => ?_⟩
    · simp only [Act.calls, Store.addCalls_stale hstale, List.filter_nil]
    · simp only [Store.observeAWG_stale hstale] at hp
      exact hp
  | change state => exact ⟨n, h.kept rfl rfl rfl rfl fun p hp => hp⟩

theorem inv_of_run (d : Direction) (id : Bytes) (h : system.Run as m) : ∃ n, Inv d id as m n := by
  induction h with
  | init hm =>
    obtain ⟨hcounters, hfile, hprev⟩ := hm
    refine ⟨0, ?_, le_rfl, le_rfl, fun p hp => ?_, fun p hp => ?_⟩
    · rw [hfile]
      exact List.nodup_nil
    · rw [hfile] at hp
      cases hp
    · rw [hprev] at hp
      cases hp
  | step _ hs ih =>
    obtain ⟨n, hn⟩ := ih
    exact hn.step hs

/-! ## A stretch of fresh statuses -/

/-- The steps of a stretch for a user: the device keeps its counter, and every
    status that is read is a fresh one of the same worker that has the user, who is
    enabled; the counter has grown by less than `2 ^ 63` since the status remembered. -/
def Within (d : Direction) (id : Bytes) (started : Time) (m : Metering) : Act → Prop
  | .reset id' => id' ≠ id
  | .restart _ => False
  | .observe now _ => Store.Fresh m.file now ∧ m.file.started = started ∧ m.store.Permits id ∧
      ∃ p ∈ m.file.peers, p.id = id ∧ ∀ previous, m.store.awgPrevious.lookup id = some previous →
        (d.counter p).toNat - (d.counter previous).toNat < 2 ^ 63
  | _ => True

/-- What holds after the first status `p₀` of a stretch: what was added is the
    difference of the counter remembered and the first one, and the counters
    remembered, on disk and of the device are in this order. -/
structure Since (d : Direction) (id : Bytes) (started : Time) (p₀ : PeerStatus) (as : List Act)
    (m : Metering) (previous : PeerStatus) : Prop where
  nodup : (m.file.peers.map (·.id)).Nodup
  started : m.store.awgStarted = started
  remembered : m.store.awgPrevious.lookup id = some previous
  added : added d id as + (d.counter p₀).toNat = (d.counter previous).toNat
  le : (d.counter previous).toNat ≤ m.counter d id
  file : ∀ q ∈ m.file.peers, q.id = id → (d.counter previous).toNat ≤ (d.counter q).toNat ∧
    (d.counter q).toNat ≤ m.counter d id

variable {started : Time} {p₀ previous : PeerStatus}

/-- The device counts bytes, or the store changes something else. -/
theorem Since.kept (h : Since d id started p₀ as m previous) (hfile : m'.file = m.file)
    (hstarted : m'.store.awgStarted = m.store.awgStarted)
    (hprev : m'.store.awgPrevious = m.store.awgPrevious)
    (hcalls : a.calls = []) (hcounter : m.counter d id ≤ m'.counter d id) :
    Since d id started p₀ (as ++ [a]) m' previous := by
  refine ⟨hfile ▸ h.nodup, hstarted.trans h.started, hprev ▸ h.remembered, ?_, h.le.trans hcounter,
    fun q hq hid => ?_⟩
  · rw [added_snoc, hcalls]
    exact h.added
  · obtain ⟨hle, hdev⟩ := h.file q (hfile ▸ hq) hid
    exact ⟨hle, hdev.trans hcounter⟩

/-- The next status is read. -/
theorem Since.observed (h : Since d id started p₀ as m previous) {now : Time}
    (hfresh : Store.Fresh m.file now) (hstarted : m.file.started = started)
    (hperm : m.store.Permits id) {p : PeerStatus} (hp : p ∈ m.file.peers) (hid : p.id = id)
    (hlt : (d.counter p).toNat - (d.counter previous).toNat < 2 ^ 63) (err : Option String) :
    Since d id started p₀ (as ++ [.observe now (m.store.addCalls m.file now)])
      { m with store := m.store.observeAWG m.file now err } p := by
  obtain ⟨hle, hdev⟩ := h.file p hp hid
  subst hid
  refine ⟨h.nodup, (Store.observeAWG_fresh hfresh m.store err).2.trans hstarted,
    Store.observeAWG_remembers h.nodup hfresh hp hperm err, ?_, hdev, fun q hq hqid => ?_⟩
  · have hadded := h.added
    have hcalls := Store.observeAWG_counts h.nodup hfresh (h.started.trans hstarted.symm) hp hperm
      h.remembered
    have hgrown := Store.toNat_counted (UInt64.le_iff_toNat_le.2 hle) hlt
    rw [added_snoc, Act.calls, hcalls, List.map_singleton, List.sum_singleton, amount_counted,
      hgrown]
    omega
  · rw [List.inj_on_of_nodup_map h.nodup hq hp hqid]
    exact ⟨le_rfl, hdev⟩

theorem Since.step (h : Since d id started p₀ as m previous) (hwithin : Within d id started m a)
    (hstep : Step m a m') : ∃ p, Since d id started p₀ (as ++ [a]) m' p := by
  cases hstep with
  | traffic id' bytes =>
    refine ⟨previous, h.kept rfl rfl rfl rfl ?_⟩
    simp only [counter, Function.update_apply]
    split_ifs with hid
    · subst hid
      cases d <;> exact Nat.le_add_right _ _
    · exact le_rfl
  | reset id' =>
    refine ⟨previous, h.kept rfl rfl rfl rfl (le_of_eq ?_)⟩
    simp only [counter, Function.update_apply, if_neg (Ne.symm hwithin)]
  | restart started worker _ _ => exact hwithin.elim
  | publish hnodup hdump hok =>
    have hfile := file_of_publish hnodup hdump hok
    refine ⟨previous, hfile.1, h.started, h.remembered, ?_, h.le, fun q hq hid => ?_⟩
    · rw [added_snoc]
      exact h.added
    · have hq := hfile.2 d q hq
      rw [hid] at hq
      exact ⟨h.le.trans hq.ge, hq.le⟩
  | observe now err =>
    obtain ⟨hfresh, hstarted, hperm, p, hp, hid, hlt⟩ := hwithin
    exact ⟨p, h.observed hfresh hstarted hperm hp hid (hlt previous h.remembered) err⟩
  | unreadable now err =>
    have hstale : ¬ Store.Fresh noStatus now := fun hfresh => hfresh (.inl rfl)
    refine ⟨previous, h.kept rfl ?_ ?_ (Store.addCalls_stale hstale _) le_rfl⟩
    · simp only [Store.observeAWG_stale hstale]
      rfl
    · simp only [Store.observeAWG_stale hstale]
      rfl
  | change state => exact ⟨previous, h.kept rfl rfl rfl rfl le_rfl⟩

/-- The first status of a stretch is read. -/
theorem Since.first (hnodup : (m.file.peers.map (·.id)).Nodup) {now : Time}
    (hfresh : Store.Fresh m.file now) (hp₀ : p₀ ∈ m.file.peers) (hperm : m.store.Permits p₀.id)
    (hdev : (d.counter p₀).toNat ≤ m.counter d p₀.id) (err : Option String) :
    Since d p₀.id m.file.started p₀ []
      { m with store := m.store.observeAWG m.file now err } p₀ := by
  refine ⟨hnodup, (Store.observeAWG_fresh hfresh m.store err).2,
    Store.observeAWG_remembers hnodup hfresh hp₀ hperm err, Nat.zero_add _, hdev,
    fun q hq hqid => ?_⟩
  rw [List.inj_on_of_nodup_map hnodup hq hp₀ hqid]
  exact ⟨le_rfl, hdev⟩

theorem since_of_run {m₁ : Metering} (hfirst : Since d id started p₀ [] m₁ p₀)
    (h : ((system.start m₁).restrict (Within d id started)).Run as m) :
    ∃ previous, Since d id started p₀ as m previous := by
  induction h with
  | init hm =>
    cases hm
    exact ⟨p₀, hfirst⟩
  | step _ hs ih =>
    obtain ⟨previous, hprev⟩ := ih
    exact hprev.step hs.1 hs.2

namespace Sample

open AwgServer.Sample (first second)

/-- The user of the snapshots. -/
def user : User :=
  { User.zero with id := str "u", protocols := some [str "awg"] }

/-- At first there is nothing but the user. -/
def start : Metering where
  counters := fun _ => 0
  worker := AwgServer.Sample.worker
  file := noStatus
  store := Store.opened none ⟨none, 1, [], [], Finmap.singleton (str "u") user⟩ 0

/-- The state after some bytes and a snapshot. -/
def published (m : Metering) (bytes : ℕ × ℕ) (env : SnapshotEnv) : Metering where
  counters := Function.update m.counters (str "u") (m.counters (str "u") + bytes)
  worker := (m.worker.snapshot env).2
  file := ⟨m.worker.started, env.now, env.entries.map (AwgServer.confirm m.worker.activity env.now)⟩
  store := m.store

/-- The state after the status was read. -/
def observed (m : Metering) (now : Time) : Metering :=
  { m with store := m.store.observeAWG m.file now none }

theorem step_traffic (m : Metering) (bytes : ℕ × ℕ) : Step m (.traffic (str "u") bytes)
    { m with counters := Function.update m.counters (str "u") (m.counters (str "u") + bytes) } :=
  .traffic m (str "u") bytes

theorem step_publish {m : Metering} {bytes : ℕ × ℕ} {env : SnapshotEnv} (hraw : env.dump ≠ none)
    (hnodup : (env.entries.map (·.id)).Nodup) (hdump : ∀ p ∈ env.entries,
      (p.tx.toNat, p.rx.toNat) = (published m bytes env).counters p.id) :
    Step { m with counters := Function.update m.counters (str "u") (m.counters (str "u") + bytes) }
      (.publish env) (published m bytes env) :=
  .publish hnodup hdump (Worker.snapshot_ok hraw hnodup).1

/-- The first status is written and read, then the second one is written. -/
def m₀ : Metering := published start (100, 70) first

@[inherit_doc m₀]
def m₁ : Metering := observed m₀ (unixTime 2000)

@[inherit_doc m₀]
def m₂ : Metering := published m₁ (50, 0) second

theorem run_first : system.Run ([] ++ [.traffic (str "u") (100, 70)] ++ [.publish first]) m₀ := by
  have hstart : system.Run [] start := .init ⟨rfl, rfl, rfl⟩
  exact (hstart.step (step_traffic start (100, 70))).step
    (step_publish (by decide) (by decide +kernel) (by decide +kernel))

/-- The system in the stretch after the first status. -/
def stretch : System Metering Act :=
  (system.start m₁).restrict (Within .tx (str "u") m₀.file.started)

theorem run_second : stretch.Run ([] ++ [.traffic (str "u") (50, 0)] ++ [.publish second]) m₂ := by
  have hstart : stretch.Run [] m₁ := .init rfl
  have htraffic : stretch.step m₁ (.traffic (str "u") (50, 0)) _ :=
    ⟨trivial, step_traffic m₁ (50, 0)⟩
  exact (hstart.step htraffic).step
    ⟨trivial, step_publish (by decide) (by decide +kernel) (by decide +kernel)⟩

end Sample

/-- Byte accounting. What `ObserveAWG` does to the buckets of a user are its calls
    of `add`. In every run, what they add for a user is at most what the device
    counted over all its epochs. And after the first status `p₀` of a stretch,
    written since the counter of the device was last reset, what they add is
    the difference of the counter of the last status and that of the first. -/
theorem bytes_of_run {as₀ : List Act} {m₀ : Metering} (h : system.Run as₀ m₀) (d : Direction)
    (id : Bytes) :
    (∀ status now err, (m₀.store.observeAWG status now err).bucketsOf id =
      ((m₀.store.addCalls status now).filter (·.id = id)).foldl (Store.addBuckets now)
        (m₀.store.bucketsOf id)) ∧
    added d id as₀ ≤ counted d id as₀ ∧
    ∀ now₀ err, ∀ p₀ ∈ m₀.file.peers, p₀.id = id → Store.Fresh m₀.file now₀ →
      m₀.store.Permits id → (d.counter p₀).toNat ≤ m₀.counter d id →
      ∀ as m, ((system.start { m₀ with store := m₀.store.observeAWG m₀.file now₀ err }).restrict
          (Within d id m₀.file.started)).Run as m →
        ∀ now calls, calls = m.store.addCalls m.file now →
          Within d id m₀.file.started m (.observe now calls) →
          ∀ p ∈ m.file.peers, p.id = id →
            added d id (as ++ [.observe now calls]) + (d.counter p₀).toNat =
              (d.counter p).toNat := by
  obtain ⟨n, hinv⟩ := inv_of_run d id h
  refine ⟨fun status now err => Store.bucketsOf_observeAWG status now err m₀.store id,
    hinv.added_le.trans hinv.le_counted, ?_⟩
  rintro now₀ err p₀ hp₀ rfl hfresh hperm hdev as m hrun now calls rfl hwithin p hp hid
  obtain ⟨previous, hsince⟩ := since_of_run (Since.first hinv.nodup hfresh hp₀ hperm hdev err) hrun
  obtain ⟨hfresh', hstarted, hperm', q, hq, hqid, hlt⟩ := hwithin
  have hpq : p = q := List.inj_on_of_nodup_map hsince.nodup hp hq (hid.trans hqid.symm)
  rw [hpq]
  exact (hsince.observed hfresh' hstarted hperm' hq hqid (hlt previous hsince.remembered)
    none).added

theorem bytes_of_run_sample :
    added .tx (str "u") ([] ++ [.traffic (str "u") (50, 0)] ++ [.publish AwgServer.Sample.second] ++
      [.observe (unixTime 2001) (Sample.m₂.store.addCalls Sample.m₂.file (unixTime 2001))]) + 100 =
        150 := by
  have hfirst : ∃ p₀ ∈ Sample.m₀.file.peers, p₀.id = str "u" ∧ p₀.tx = 100 := by decide +kernel
  have hlast : ∃ p ∈ Sample.m₂.file.peers, p.id = str "u" ∧ p.tx = 150 := by decide +kernel
  obtain ⟨p₀, hp₀, hid₀, htx₀⟩ := hfirst
  obtain ⟨p, hp, hid, htx⟩ := hlast
  have h₀ : (Direction.tx.counter p₀).toNat = 100 := congrArg UInt64.toNat htx₀
  have h₁ : (Direction.tx.counter p).toNat = 150 := congrArg UInt64.toNat htx
  have hfresh : Store.Fresh Sample.m₀.file (unixTime 2000) := by decide +kernel
  have hperm : Sample.m₀.store.Permits (str "u") := by decide +kernel
  have hstarted : Sample.m₂.file.started = Sample.m₀.file.started :=
    Worker.started_snapshot AwgServer.Sample.first AwgServer.Sample.worker
  have hperm' : Sample.m₂.store.Permits (str "u") := by
    rw [Sample.m₂, Sample.published, Sample.m₁, Sample.observed, Store.permits_observeAWG hfresh]
    exact hperm
  have hwithin : Within .tx (str "u") Sample.m₀.file.started Sample.m₂ (.observe (unixTime 2001)
      (Sample.m₂.store.addCalls Sample.m₂.file (unixTime 2001))) :=
    ⟨by decide +kernel, hstarted, hperm', p, hp, hid, fun _ _ => by omega⟩
  rw [← h₀, ← h₁]
  exact (bytes_of_run Sample.run_first .tx (str "u")).2.2 (unixTime 2000) none p₀ hp₀ hid₀
    hfresh hperm (h₀.le.trans (by decide)) _ _ Sample.run_second (unixTime 2001) _ rfl hwithin p hp
    hid

end Metering

end QuicLab.Admin
