import QuicLab.AwgServer.Snapshot

/-!
# The activity of peers

What the worker reports of a peer over many snapshots. A peer is *present* in
consecutive snapshots as long as each of them reports it. The activity reported
is the latest evidence since its presence began (`latestActivity`): a handshake
the device reports, or a snapshot in which the device had received more bytes
from the peer than in the one before. It does not depend on what the server
sends (`activity_of_run`).

The run lemma is `activity_after`: the worker remembers the last report of the
peers that are present, and nothing else.
-/

namespace QuicLab.AwgServer

open Go

variable {D : Type*}

/-- The worker after snapshots. -/
def Worker.after (envs : List SnapshotEnv) (w : Worker D) : Worker D :=
  envs.foldl (fun w env => (w.snapshot env).2) w

/-- What a snapshot says of the user `id`. -/
def SnapshotEnv.entry (env : SnapshotEnv) (id : Bytes) : Option PeerStatus :=
  env.entries.find? (·.id = id)

/-- What a snapshot adds to the presence of the user `id`: an entry, or its end.
    A snapshot that fails says nothing. -/
def extend (id : Bytes) (l : List (Time × PeerStatus)) (env : SnapshotEnv) :
    List (Time × PeerStatus) :=
  if env.dump = none then l
  else
    match env.entry id with
    | none => []
    | some p => l ++ [(env.now, p)]

/-- The current presence of the user `id`: the times and entries of the snapshots
    since the last one without it. -/
def presence (id : Bytes) (envs : List SnapshotEnv) : List (Time × PeerStatus) :=
  envs.foldl (extend id) []

/-- The times of the entries with more bytes received than in the one before. -/
def received : List (Time × PeerStatus) → List Time
  | x :: y :: l => (if x.2.tx < y.2.tx then [y.1] else []) ++ received (y :: l)
  | _ => []

/-- The latest of the handshakes and of the times bytes had been received, the
    zero time if there is none. -/
def latestActivity (l : List (Time × PeerStatus)) : Time :=
  max ((l.map (·.2.handshake)).foldl max 0) ((received l).foldl max 0)

/-- The snapshots of a run: the clock does not go back, no handshake is in the
    future, a dump has each key once, and users are told apart by their ids. -/
structure Regular (envs : List SnapshotEnv) : Prop where
  clock : envs.Pairwise fun e e' => e.now ≤ e'.now
  past : ∀ e ∈ envs, ∀ p ∈ e.entries, p.handshake ≤ e.now
  keys : ∀ e ∈ envs, ∀ raw, e.dump = some raw → ((sections raw).map (·.key)).Nodup
  users : ∀ e ∈ envs, (e.users.map (·.2.id)).Nodup

/-! ## Entries -/

variable {users : List (Time × User)}

/-- Who a public key belongs to. -/
theorem ids_lookup {key id : Bytes} (h : (ids users).lookup key = some id) :
    ∃ u ∈ users, ∃ p, u.2.enabledPeer u.1 = some p ∧ publicHex p = key ∧ u.2.id = id := by
  induction users using List.reverseRecOn with
  | nil => cases h
  | append_singleton users u ih =>
    have hold : (ids users).lookup key = some id → ∃ u' ∈ users ++ [u], ∃ p,
        u'.2.enabledPeer u'.1 = some p ∧ publicHex p = key ∧ u'.2.id = id := fun h => by
      obtain ⟨u', hu', hp⟩ := ih h
      exact ⟨u', List.mem_append_left _ hu', hp⟩
    rw [ids, List.foldl_append, List.foldl_cons, List.foldl_nil] at h
    split at h
    next => exact hold h
    next p hp =>
      rw [Map.lookup_insert'] at h
      split_ifs at h with hkey
      · exact ⟨u, by simp, p, hp, hkey.symm, Option.some.inj h⟩
      · exact hold h

/-- Users with distinct ids have distinct public keys in the map. -/
theorem ids_injective (hu : (users.map (·.2.id)).Nodup) {key key' id : Bytes}
    (h : (ids users).lookup key = some id) (h' : (ids users).lookup key' = some id) :
    key = key' := by
  obtain ⟨u, hmem, p, hp, rfl, hid⟩ := ids_lookup h
  obtain ⟨u', hmem', p', hp', rfl, hid'⟩ := ids_lookup h'
  have huu : u = u' := List.inj_on_of_nodup_map hu hmem hmem' (hid.trans hid'.symm)
  subst huu
  cases hp.symm.trans hp'
  rfl

theorem nodup_entries (hu : (users.map (·.2.id)).Nodup) {l : List Section}
    (hl : (l.map (·.key)).Nodup) :
    ((entries (ids users) l).map (·.id)).Nodup := by
  rw [List.Nodup, List.pairwise_map] at hl ⊢
  rw [entries, List.pairwise_filter, List.pairwise_map]
  refine hl.imp fun {c c'} hne hc hc' heq => hne ?_
  have hid : (c.status (((ids users).lookup c.key).getD [])).id ≠ [] := by simpa using hc
  have hid' : (c'.status (((ids users).lookup c'.key).getD [])).id ≠ [] := by simpa using hc'
  simp only [Section.status] at hid hid' heq
  cases hk : (ids users).lookup c.key with
  | none => exact absurd (by rw [hk]; rfl) hid
  | some i =>
    cases hk' : (ids users).lookup c'.key with
    | none => exact absurd (by rw [hk']; rfl) hid'
    | some i' =>
      rw [hk, hk', Option.getD_some, Option.getD_some] at heq
      exact ids_injective hu hk (heq ▸ hk')

variable {e : SnapshotEnv} {envs : List SnapshotEnv}

theorem Regular.nodup (h : Regular envs) (he : e ∈ envs) : (e.entries.map (·.id)).Nodup := by
  rw [SnapshotEnv.entries]
  cases hraw : e.dump with
  | none => exact List.nodup_nil
  | some raw => exact nodup_entries (h.users e he) (h.keys e he raw hraw)

variable {p : PeerStatus}

/-- An entry is the section of the public key of its user. -/
theorem mem_entries {l : List Section} (h : p ∈ entries (ids users) l) :
    p.id ≠ [] ∧ ∃ u ∈ users, ∃ q,
      u.2.enabledPeer u.1 = some q ∧ u.2.id = p.id ∧ ∃ c ∈ l, c.key = publicHex q ∧
        p = c.status p.id := by
  obtain ⟨hmem, hid⟩ := List.mem_filter.1 h
  obtain ⟨c, hc, rfl⟩ := List.mem_map.1 hmem
  have hid : (c.status (((ids users).lookup c.key).getD [])).id ≠ [] := by simpa using hid
  refine ⟨hid, ?_⟩
  cases hk : (ids users).lookup c.key with
  | none =>
    rw [hk] at hid
    exact absurd rfl hid
  | some id =>
    obtain ⟨u, hu, q, hq, hkey, huid⟩ := ids_lookup hk
    exact ⟨u, hu, q, hq, huid, c, hc, hkey.symm, rfl⟩

/-! ## Evidence -/

theorem presence_snoc_of_error (id : Bytes) (envs : List SnapshotEnv) (he : e.dump = none) :
    presence id (envs ++ [e]) = presence id envs := by
  rw [presence, List.foldl_append, List.foldl_cons, List.foldl_nil, extend, if_pos he]
  rfl

theorem presence_snoc (id : Bytes) (envs : List SnapshotEnv) (he : e.dump ≠ none) :
    presence id (envs ++ [e]) =
      match e.entry id with
      | none => []
      | some p => presence id envs ++ [(e.now, p)] := by
  rw [presence, List.foldl_append, List.foldl_cons, List.foldl_nil, extend, if_neg he]
  rfl

theorem received_snoc (l : List (Time × PeerStatus)) (x y : Time × PeerStatus) :
    received (l ++ [x] ++ [y]) =
      received (l ++ [x]) ++ if x.2.tx < y.2.tx then [y.1] else [] := by
  induction l with
  | nil => exact List.append_nil _
  | cons z l ih =>
    cases l with
    | nil =>
      simp only [List.nil_append, List.cons_append, received, List.append_nil]
    | cons z' l =>
      simp only [List.cons_append, received] at ih ⊢
      rw [ih, List.append_assoc]

theorem latestActivity_nonneg (l : List (Time × PeerStatus)) : 0 ≤ latestActivity l := by
  have hpos : ∀ (l : List Time) (t : Time), t ≤ l.foldl max t := fun l => by
    induction l with
    | nil => exact fun t => le_rfl
    | cons x l ih => exact fun t => (le_max_left t x).trans (ih _)
  exact (hpos _ 0).trans (le_max_left _ _)

/-- The first entry of a presence: only its handshake counts. -/
theorem latestActivity_single {x : Time × PeerStatus} (hx : 0 ≤ x.2.handshake) :
    latestActivity [x] = x.2.handshake := by
  simp only [latestActivity, received, List.map_cons, List.map_nil, List.foldl_cons,
    List.foldl_nil]
  rw [max_eq_right hx, max_eq_left hx]

/-- One more entry of a presence. -/
theorem latestActivity_snoc (l : List (Time × PeerStatus)) (x y : Time × PeerStatus) :
    latestActivity (l ++ [x] ++ [y]) = max (max (latestActivity (l ++ [x])) y.2.handshake)
      (if x.2.tx < y.2.tx then y.1 else 0) := by
  have hnonneg := latestActivity_nonneg (l ++ [x])
  rw [latestActivity, received_snoc, List.map_append, List.foldl_append, List.foldl_append]
  split_ifs
  · simp only [List.map_cons, List.map_nil, List.foldl_cons, List.foldl_nil, latestActivity]
    ac_rfl
  · rw [max_eq_left (hnonneg.trans (le_max_left _ _))]
    simp only [List.map_cons, List.map_nil, List.foldl_cons, List.foldl_nil, latestActivity]
    ac_rfl

theorem nonneg_handshake (c : Section) : 0 ≤ c.handshake := by
  rw [Section.handshake]
  cases h : (((Section.values c.lines (str "last_handshake_time_sec")).map parseIntValue).filter
      (0 < ·)).getLast? with
  | none => exact le_rfl
  | some n =>
    have hn : 0 < n := by simpa using (List.mem_filter.1 (List.mem_of_getLast? h)).2
    simp only [Option.map_some, Option.getD_some, unixTime, second]
    exact Int.mul_nonneg (by omega) (by decide)

/-! ## Runs -/

variable {id : Bytes}

theorem SnapshotEnv.entry_id (h : e.entry id = some p) : p ∈ e.entries ∧ p.id = id :=
  ⟨List.mem_of_find?_eq_some h, by simpa using List.find?_some h⟩

theorem SnapshotEnv.mem_entries (h : p ∈ e.entries) :
    p.id ≠ [] ∧ 0 ≤ p.handshake := by
  rw [entries] at h
  cases hraw : e.dump with
  | none =>
    rw [hraw] at h
    cases h
  | some raw =>
    rw [hraw] at h
    obtain ⟨hid, u, -, q, -, -, c, -, -, hp⟩ := AwgServer.mem_entries h
    refine ⟨hid, ?_⟩
    rw [hp]
    exact nonneg_handshake c

/-- What a worker remembers of a presence: its last entry, with its activity. -/
def remembered (l : List (Time × PeerStatus)) : Option PeerStatus :=
  l.getLast?.map fun x => { x.2 with activity := latestActivity l }

/-- An entry of the user `id` that was made at `t` or before. -/
structure Past (id : Bytes) (t : Time) (x : Time × PeerStatus) : Prop where
  time : x.1 ≤ t
  id_eq : x.2.id = id
  id_ne : x.2.id ≠ []
  nonneg : 0 ≤ x.2.handshake
  handshake : x.2.handshake ≤ t

theorem Regular.init {envs envs' : List SnapshotEnv} (h : Regular (envs ++ envs')) :
    Regular envs where
  clock := (List.pairwise_append.1 h.clock).1
  past e' he' := h.past e' (List.mem_append_left _ he')
  keys e' he' := h.keys e' (List.mem_append_left _ he')
  users e' he' := h.users e' (List.mem_append_left _ he')

theorem Regular.le_last (h : Regular (envs ++ [e])) :
    ∀ e' ∈ envs, e'.now ≤ e.now := fun e' he' =>
  (List.pairwise_append.1 h.clock).2.2 e' he' e (List.mem_singleton.2 rfl)

theorem Regular.past_entry (h : Regular envs) (he : e ∈ envs) {t : Time} (ht : e.now ≤ t)
    (hp : e.entry id = some p) : Past id t (e.now, p) := by
  obtain ⟨hmem, hid⟩ := SnapshotEnv.entry_id hp
  obtain ⟨hne, hnonneg⟩ := SnapshotEnv.mem_entries hmem
  exact ⟨ht, hid, hne, hnonneg, (h.past e he p hmem).trans ht⟩

theorem presence_past (h : Regular envs) {t : Time} (ht : ∀ e ∈ envs, e.now ≤ t) (id : Bytes) :
    ∀ x ∈ presence id envs, Past id t x := by
  induction envs using List.reverseRecOn with
  | nil => exact fun x hx => by cases hx
  | append_singleton envs e ih =>
    have hold := ih h.init fun e' he' => ht e' (List.mem_append_left _ he')
    have hmem : e ∈ envs ++ [e] := by simp
    by_cases hdump : e.dump = none
    · rwa [presence_snoc_of_error id envs hdump]
    · rw [presence_snoc id envs hdump]
      cases hp : e.entry id with
      | none => exact fun x hx => by cases hx
      | some p =>
        intro x hx
        rcases List.mem_append.1 hx with hx | hx
        · exact hold x hx
        · cases List.mem_singleton.1 hx
          exact h.past_entry hmem (ht e hmem) hp

theorem latestActivity_le {t : Time} {l : List (Time × PeerStatus)} (hl : ∀ x ∈ l, Past id t x)
    (ht : 0 ≤ t) : latestActivity l ≤ t := by
  induction l using List.reverseRecOn with
  | nil => exact ht
  | append_singleton l y ih =>
    have hy := hl y (by simp)
    have hle := ih fun x hx => hl x (List.mem_append_left _ hx)
    rcases List.eq_nil_or_concat l with rfl | ⟨l, x, rfl⟩
    · exact (latestActivity_single hy.nonneg).trans_le hy.handshake
    · rw [List.concat_eq_append] at hle ⊢
      rw [latestActivity_snoc]
      refine max_le (max_le hle hy.handshake) ?_
      split_ifs
      · exact hy.time
      · exact ht

theorem confirmedActivity_seen (previous current : PeerStatus) (now : Time) :
    confirmedActivity previous current now =
      if previous.id ≠ [] ∧ previous.tx < current.tx then now
      else max previous.activity current.handshake := by
  rw [confirmedActivity]
  split_ifs with hrecv hlt
  · rfl
  · exact (max_eq_right hlt.le).symm
  · exact (max_eq_left (not_lt.1 hlt)).symm

/-- Confirming the activity of a peer, given what is remembered of its presence. -/
theorem confirmedActivity_eq {now : Time} {l : List (Time × PeerStatus)}
    (hl : ∀ x ∈ l, Past id now x) (hp : Past id now (now, p)) :
    confirmedActivity ((remembered l).getD .zero) p now = latestActivity (l ++ [(now, p)]) := by
  have hnow : 0 ≤ now := hp.nonneg.trans hp.handshake
  rw [confirmedActivity_seen]
  rcases List.eq_nil_or_concat l with rfl | ⟨l, x, rfl⟩
  · rw [List.nil_append, latestActivity_single hp.nonneg, if_neg fun h => h.1 rfl]
    exact max_eq_right hp.nonneg
  · rw [List.concat_eq_append] at hl ⊢
    have hx := hl x (by simp)
    have hrem : (remembered (l ++ [x])).getD .zero =
        { x.2 with activity := latestActivity (l ++ [x]) } := by
      rw [remembered, List.getLast?_concat]
      rfl
    rw [hrem, latestActivity_snoc]
    by_cases hrecv : x.2.tx < p.tx
    · rw [if_pos ⟨hx.id_ne, hrecv⟩, if_pos hrecv, max_eq_right]
      exact max_le (latestActivity_le hl hnow) hp.handshake
    · rw [if_neg fun h => hrecv h.2, if_neg hrecv]
      exact (max_eq_left ((latestActivity_nonneg _).trans (le_max_left _ _))).symm

/-- The status reported of an entry. -/
theorem confirm_eq (h : Regular (envs ++ [e])) {activity : Map Bytes PeerStatus}
    (hactivity : activity.lookup id = remembered (presence id envs)) (hdump : e.dump ≠ none)
    (hp : e.entry id = some p) : confirm activity e.now p =
      { p with activity := latestActivity (presence id (envs ++ [e])) } := by
  have hpast := h.past_entry (by simp) le_rfl hp
  rw [confirm, (SnapshotEnv.entry_id hp).2, hactivity,
    confirmedActivity_eq (presence_past h.init h.le_last id) hpast, presence_snoc id envs hdump, hp]

variable {w : Worker D}

/-- A worker remembers the last report of the peers that are present. -/
theorem activity_after (hw : w.activity = ∅) (h : Regular envs) (id : Bytes) :
    (w.after envs).activity.lookup id = remembered (presence id envs) := by
  induction envs using List.reverseRecOn with
  | nil =>
    rw [Worker.after, List.foldl_nil, hw]
    rfl
  | append_singleton envs e ih =>
    have hafter : w.after (envs ++ [e]) = ((w.after envs).snapshot e).2 := List.foldl_append
    rw [hafter]
    by_cases hdump : e.dump = none
    · rw [Worker.snapshot_error hdump, presence_snoc_of_error id envs hdump]
      exact ih h.init
    · rw [(Worker.snapshot_ok hdump (h.nodup (by simp))).2, List.find?_map]
      have hentry : e.entries.find? ((fun p => decide (p.id = id)) ∘
          confirm (w.after envs).activity e.now) = e.entry id := rfl
      rw [hentry]
      cases hp : e.entry id with
      | none =>
        rw [presence_snoc id envs hdump, hp]
        rfl
      | some p =>
        rw [Option.map_some, confirm_eq h (ih h.init) hdump hp, presence_snoc id envs hdump, hp,
          remembered, List.getLast?_concat]
        rfl

/-- The peers a snapshot reports. -/
def Worker.reported (env : SnapshotEnv) (w : Worker D) : List PeerStatus :=
  match (w.snapshot env).1 with
  | .error _ => []
  | .ok status => status.peers

theorem SnapshotEnv.entry_of_mem (he : (e.entries.map (·.id)).Nodup) (hp : p ∈ e.entries) :
    e.entry p.id = some p := by
  cases hfind : e.entry p.id with
  | none => exact absurd (decide_eq_true rfl) (List.find?_eq_none.1 hfind p hp)
  | some q =>
    obtain ⟨hq, hid⟩ := entry_id hfind
    rw [List.inj_on_of_nodup_map he hq hp hid]

/-- What is reported after a run. -/
theorem reported_eq (hw : w.activity = ∅) (h : Regular (envs ++ [e])) :
    (w.after envs).reported e = e.entries.map fun p =>
      { p with activity := latestActivity (presence p.id (envs ++ [e])) } := by
  have hnodup := h.nodup (e := e) (by simp)
  by_cases hdump : e.dump = none
  · rw [Worker.reported, Worker.snapshot_error hdump, SnapshotEnv.entries, hdump]
    rfl
  · rw [Worker.reported, (Worker.snapshot_ok hdump hnodup).1]
    refine List.map_congr_left fun p hp => ?_
    exact confirm_eq h (activity_after hw h.init p.id) hdump (SnapshotEnv.entry_of_mem hnodup hp)

/-- The last report of a presence, before snapshots that failed. -/
theorem presence_of_reported (hw : w.activity = ∅) {envs errs : List SnapshotEnv}
    (h : Regular (envs ++ [e])) (herrs : ∀ e' ∈ errs, e'.dump = none)
    (hp : p ∈ (w.after envs).reported e) :
    ∃ l x, presence p.id (envs ++ e :: errs) = l ++ [x] ∧ x.2.tx = p.tx ∧
      latestActivity (l ++ [x]) = p.activity := by
  have hlast : presence p.id (envs ++ e :: errs) = presence p.id (envs ++ [e]) := by
    induction errs using List.reverseRecOn with
    | nil => rfl
    | append_singleton errs e' ih =>
      rw [← List.cons_append, ← List.append_assoc,
        presence_snoc_of_error _ _ (herrs e' (by simp))]
      exact ih fun e'' he'' => herrs e'' (List.mem_append_left _ he'')
  rw [hlast]
  rw [reported_eq hw h] at hp
  obtain ⟨q, hq, rfl⟩ := List.mem_map.1 hp
  have hdump : e.dump ≠ none := fun hnone => by
    rw [SnapshotEnv.entries, hnone] at hq
    cases hq
  have hpres : presence q.id (envs ++ [e]) = presence q.id envs ++ [(e.now, q)] := by
    rw [presence_snoc _ _ hdump, SnapshotEnv.entry_of_mem (h.nodup (by simp)) hq]
  exact ⟨_, _, hpres, rfl, by rw [← hpres]⟩

/-! ## What the server sends -/

/-- The lines of a dump without those of `tx_bytes`. -/
def withoutTx (lines : List (Bytes × Bytes)) : List (Bytes × Bytes) :=
  lines.filter (·.1 ≠ str "tx_bytes")

/-- The snapshots differ in the values of `tx_bytes` only. -/
structure SameButTx (e e' : SnapshotEnv) : Prop where
  now : e.now = e'.now
  users : e.users = e'.users
  dump : (e.dump.map fun raw => withoutTx ((split raw (ascii '\n')).filterMap (cut · (ascii '=')))) =
    e'.dump.map fun raw => withoutTx ((split raw (ascii '\n')).filterMap (cut · (ascii '=')))

/-- A status without what the server sent. -/
def PeerStatus.withoutRx (p : PeerStatus) : PeerStatus := { p with rx := 0 }

theorem withoutTx_cons_of_eq {line : Bytes × Bytes} (h : line.1 = str "tx_bytes")
    (lines : List (Bytes × Bytes)) : withoutTx (line :: lines) = withoutTx lines :=
  List.filter_cons_of_neg (by simpa using h)

theorem withoutTx_cons_of_ne {line : Bytes × Bytes} (h : line.1 ≠ str "tx_bytes")
    (lines : List (Bytes × Bytes)) : withoutTx (line :: lines) = line :: withoutTx lines :=
  List.filter_cons_of_pos (by simpa using h)

theorem group_withoutTx (lines : List (Bytes × Bytes)) : group (withoutTx lines) =
    (withoutTx (group lines).1, (group lines).2.map fun c => ⟨c.key, withoutTx c.lines⟩) := by
  have hne : str "public_key" ≠ str "tx_bytes" := by decide
  induction lines with
  | nil => rfl
  | cons line lines ih =>
    by_cases htx : line.1 = str "tx_bytes"
    · have hkey : line.1 ≠ str "public_key" := fun h => hne (h.symm.trans htx)
      rw [withoutTx_cons_of_eq htx, ih, group, if_neg hkey]
      simp only [withoutTx_cons_of_eq htx]
    · rw [withoutTx_cons_of_ne htx, group, ih, group]
      split_ifs
      · rfl
      · simp only [withoutTx_cons_of_ne htx]

theorem values_withoutTx (lines : List (Bytes × Bytes)) {field : Bytes}
    (hne : field ≠ str "tx_bytes") :
    Section.values (withoutTx lines) field = Section.values lines field := by
  rw [Section.values, withoutTx, List.filterMap_filter]
  refine List.filterMap_congr fun line _ => ?_
  by_cases hfield : line.1 = field
  · rw [if_pos (by simpa [hfield] using hne)]
  · simp [hfield]

theorem values_tx (lines : List (Bytes × Bytes)) :
    Section.values (withoutTx lines) (str "tx_bytes") = [] := by
  rw [Section.values, withoutTx, List.filterMap_filter, List.filterMap_eq_nil_iff]
  intro line _
  by_cases h : line.1 = str "tx_bytes" <;> simp [h]

theorem status_withoutTx (id : Bytes) (c : Section) :
    Section.status id ⟨c.key, withoutTx c.lines⟩ = (c.status id).withoutRx := by
  simp only [Section.status, Section.endpoint, Section.handshake, Section.counter,
    PeerStatus.withoutRx, values_tx, values_withoutTx _ (show str "endpoint" ≠ _ by decide),
    values_withoutTx _ (show str "rx_bytes" ≠ _ by decide),
    values_withoutTx _ (show str "last_handshake_time_sec" ≠ _ by decide)]
  rfl

theorem entries_withoutTx (ids : Map Bytes Bytes) (l : List Section) :
    entries ids (l.map fun c => ⟨c.key, withoutTx c.lines⟩) =
      (entries ids l).map PeerStatus.withoutRx := by
  have hstatus : ((fun c : Section => c.status ((ids.lookup c.key).getD [])) ∘
      fun c => ⟨c.key, withoutTx c.lines⟩) =
      PeerStatus.withoutRx ∘ fun c : Section => c.status ((ids.lookup c.key).getD []) :=
    funext fun c => status_withoutTx _ c
  rw [entries, List.map_map, hstatus, ← List.map_map, List.filter_map]
  rfl

namespace SameButTx

variable {e e' : SnapshotEnv} (h : SameButTx e e')
include h

theorem dump_eq_none : e.dump = none ↔ e'.dump = none := by
  have hdump := h.dump
  cases hd : e.dump <;> cases hd' : e'.dump <;> rw [hd, hd'] at hdump <;> simp at hdump ⊢

/-- The sections are the same, but for the values of `tx_bytes`. -/
theorem sections_eq {raw raw' : Bytes} (hd : e.dump = some raw) (hd' : e'.dump = some raw') :
    (sections raw).map (fun c => (⟨c.key, withoutTx c.lines⟩ : Section)) =
      (sections raw').map fun c => ⟨c.key, withoutTx c.lines⟩ := by
  have hdump := h.dump
  rw [hd, hd', Option.map_some, Option.map_some, Option.some.injEq] at hdump
  have hgroup := congrArg (fun lines => (group lines).2) hdump
  simp only [group_withoutTx] at hgroup
  exact hgroup

theorem entries_eq : e.entries.map PeerStatus.withoutRx = e'.entries.map PeerStatus.withoutRx := by
  cases hd : e.dump with
  | none =>
    rw [SnapshotEnv.entries, SnapshotEnv.entries, hd, h.dump_eq_none.1 hd]
    rfl
  | some raw =>
    cases hd' : e'.dump with
    | none => exact absurd (h.dump_eq_none.2 hd') (by simp [hd])
    | some raw' =>
      rw [SnapshotEnv.entries, SnapshotEnv.entries, hd, hd', Option.map_some, Option.map_some,
        Option.getD_some, Option.getD_some, ← entries_withoutTx, ← entries_withoutTx,
        h.sections_eq hd hd', h.users]

theorem entry_eq (id : Bytes) :
    (e.entry id).map PeerStatus.withoutRx = (e'.entry id).map PeerStatus.withoutRx := by
  have hfind : ∀ e : SnapshotEnv, (e.entry id).map PeerStatus.withoutRx =
      (e.entries.map PeerStatus.withoutRx).find? (·.id = id) := fun e => by
    rw [List.find?_map]
    rfl
  rw [hfind, hfind, h.entries_eq]

end SameButTx

/-- A presence without what the server sent. -/
def withoutRx (l : List (Time × PeerStatus)) : List (Time × PeerStatus) :=
  l.map fun x => (x.1, x.2.withoutRx)

theorem SameButTx.extend_eq {e e' : SnapshotEnv} (h : SameButTx e e') (id : Bytes)
    {l l' : List (Time × PeerStatus)} (hl : withoutRx l = withoutRx l') :
    withoutRx (extend id l e) = withoutRx (extend id l' e') := by
  by_cases hd : e.dump = none
  · rw [extend, if_pos hd, extend, if_pos (h.dump_eq_none.1 hd)]
    exact hl
  · rw [extend, if_neg hd, extend, if_neg (mt h.dump_eq_none.2 hd)]
    have hentry := h.entry_eq id
    cases hp : e.entry id with
    | none =>
      rw [hp] at hentry
      rw [Option.map_eq_none_iff.1 hentry.symm]
    | some p =>
      rw [hp] at hentry
      obtain ⟨p', hp', heq⟩ := Option.map_eq_some_iff.1 hentry.symm
      rw [hp']
      simp only [withoutRx, List.map_append, List.map_cons, List.map_nil, h.now, heq] at hl ⊢
      rw [hl]

theorem presence_sameButTx {envs envs' : List SnapshotEnv} (h : List.Forall₂ SameButTx envs envs')
    (id : Bytes) : withoutRx (presence id envs) = withoutRx (presence id envs') := by
  have hfold : ∀ l l', withoutRx l = withoutRx l' →
      withoutRx (envs.foldl (extend id) l) = withoutRx (envs'.foldl (extend id) l') := by
    induction h with
    | nil => exact fun l l' hl => hl
    | cons he _ ih => exact fun l l' hl => ih _ _ (he.extend_eq id hl)
  exact hfold [] [] rfl

theorem latestActivity_withoutRx (l : List (Time × PeerStatus)) :
    latestActivity (withoutRx l) = latestActivity l := by
  have hreceived : ∀ l : List (Time × PeerStatus),
      received (withoutRx l) = received l := fun l => by
    induction l with
    | nil => rfl
    | cons x l ih =>
      cases l with
      | nil => rfl
      | cons y l =>
        simp only [withoutRx, List.map_cons, received] at ih ⊢
        rw [ih]
        rfl
  rw [latestActivity, hreceived, withoutRx, List.map_map]
  rfl

/-- A run that differs in `tx_bytes` only is as regular. -/
theorem Regular.of_sameButTx {envs envs' : List SnapshotEnv} (h : Regular envs)
    (hsame : List.Forall₂ SameButTx envs envs') : Regular envs' := by
  have hnow : envs.map (·.now) = envs'.map (·.now) := by
    clear h
    induction hsame with
    | nil => rfl
    | cons he _ ih => rw [List.map_cons, List.map_cons, he.now, ih]
  have hmem : ∀ e' ∈ envs', ∃ e ∈ envs, SameButTx e e' := by
    clear h hnow
    induction hsame with
    | nil => exact fun e' he' => by cases he'
    | cons he _ ih =>
      intro e' he'
      rcases List.mem_cons.1 he' with rfl | he'
      · exact ⟨_, List.mem_cons_self, he⟩
      · obtain ⟨e, hmem, hsame⟩ := ih e' he'
        exact ⟨e, List.mem_cons_of_mem _ hmem, hsame⟩
  refine ⟨?_, fun e' he' p' hp' => ?_, fun e' he' raw' hraw' => ?_, fun e' he' => ?_⟩
  · have hclock : (envs.map (·.now)).Pairwise (· ≤ ·) := List.pairwise_map.2 h.clock
    rw [hnow] at hclock
    exact List.pairwise_map.1 hclock
  all_goals obtain ⟨e, he, hs⟩ := hmem e' he'
  · have hp := List.mem_map_of_mem (f := PeerStatus.withoutRx) hp'
    rw [← hs.entries_eq] at hp
    obtain ⟨p, hp, heq⟩ := List.mem_map.1 hp
    have hhandshake : p.withoutRx.handshake = p'.withoutRx.handshake := by rw [heq]
    simp only [PeerStatus.withoutRx] at hhandshake
    rw [← hhandshake, ← hs.now]
    exact h.past e he p hp
  · cases hraw : e.dump with
    | none =>
      rw [hs.dump_eq_none.1 hraw] at hraw'
      cases hraw'
    | some raw =>
      have hkeys := congrArg (List.map Section.key) (hs.sections_eq hraw hraw')
      rw [List.map_map, List.map_map] at hkeys
      have hnodup := h.keys e he raw hraw
      exact hkeys ▸ hnodup
  · rw [← hs.users]
    exact h.users e he

namespace Sample

/-- A worker that has started. -/
def worker : Worker Unit := ⟨(), [], sampleConfig, some ∅, ∅, [], unixTime 1000⟩

/-- A user with an AWG peer. -/
def user : User where
  id := str "u"
  disabled := false
  protocols := some [str "awg"]
  expires := unixTime 9000
  awg := some ⟨[], base64Encode (sampleKey 7).1, [], str "10.77.0.2"⟩

/-- A dump with the peer of the user, and bytes received from it. -/
def dump (bytes : String) : Bytes :=
  str "listen_port=51820\npublic_key=" ++ hexEncode (sampleKey 7).1 ++
    str "\nendpoint=192.0.2.1:4000\nlast_handshake_time_sec=1500\ntx_bytes=70\nrx_bytes=" ++
    str bytes ++ str "\n"

/-- A snapshot two thousand seconds after 1970, and one after it. -/
def first : SnapshotEnv := ⟨some (dump "100"), [(unixTime 2000, user)], unixTime 2000⟩

@[inherit_doc first]
def second : SnapshotEnv := ⟨some (dump "150"), [(unixTime 2001, user)], unixTime 2001⟩

theorem regular : Regular ([first] ++ [second]) where
  clock := by decide
  past := by decide +kernel
  keys e he raw hraw := by
    rcases List.mem_pair.1 he with rfl | rfl
    · cases hraw
      decide +kernel
    · cases hraw
      decide +kernel
  users := by decide

end Sample

/-- The activity of peers. Every status reported is that of the section of the
    user's own public key, and its activity is the latest evidence of the current
    presence of the user: the handshake in its first snapshot; then never less
    than before, and not more than by a handshake unless more bytes were received.
    A run that differs in `tx_bytes` only reports the same activity. -/
theorem activity_of_run {w : Worker D} (hw : w.activity = ∅) {envs : List SnapshotEnv}
    {e : SnapshotEnv} (h : Regular (envs ++ [e])) {raw : Bytes} (hraw : e.dump = some raw) :
    (∀ p ∈ (w.after envs).reported e,
      (∃ u ∈ e.users, ∃ q, u.2.enabledPeer u.1 = some q ∧ u.2.id = p.id ∧
        ∃ c ∈ sections raw, c.key = publicHex q ∧ p.source = c.endpoint ∧
          p.handshake = c.handshake ∧ p.tx = c.counter (str "rx_bytes") ∧
          p.rx = c.counter (str "tx_bytes")) ∧
      p.activity = latestActivity (presence p.id (envs ++ [e])) ∧
      (presence p.id envs = [] → p.activity = p.handshake) ∧
      ∀ before last errs, envs = before ++ last :: errs → (∀ e' ∈ errs, e'.dump = none) →
        ∀ p₀ ∈ (w.after before).reported last, p₀.id = p.id →
          p₀.activity ≤ p.activity ∧
            (p.tx ≤ p₀.tx → p.activity = max p₀.activity p.handshake)) ∧
    ∀ (w' : Worker D) (envs' : List SnapshotEnv) (e' : SnapshotEnv), w'.activity = ∅ →
      List.Forall₂ SameButTx envs envs' → SameButTx e e' →
        ((w'.after envs').reported e').map (fun p => (p.id, p.activity)) =
          ((w.after envs).reported e).map fun p => (p.id, p.activity) := by
  have hdump : e.dump ≠ none := by rw [hraw]; exact Option.some_ne_none _
  refine ⟨fun p hp => ?_, fun w' envs' e' hw' hsame hlast => ?_⟩
  · rw [reported_eq hw h] at hp
    obtain ⟨q, hq, rfl⟩ := List.mem_map.1 hp
    have hpres : presence q.id (envs ++ [e]) = presence q.id envs ++ [(e.now, q)] := by
      rw [presence_snoc _ _ hdump, SnapshotEnv.entry_of_mem (h.nodup (by simp)) hq]
    have hnonneg := (SnapshotEnv.mem_entries hq).2
    refine ⟨?_, rfl, fun hfirst => ?_, fun before last errs henvs herrs p₀ hp₀ hid => ?_⟩
    · rw [SnapshotEnv.entries, hraw] at hq
      obtain ⟨-, u, hu, q', hq', huid, c, hc, hkey, hstatus⟩ := AwgServer.mem_entries hq
      refine ⟨u, hu, q', hq', huid, c, hc, hkey, ?_⟩
      generalize q.id = id at hstatus
      subst hstatus
      exact ⟨rfl, rfl, rfl, rfl⟩
    · simp only [hpres, hfirst, List.nil_append]
      exact latestActivity_single hnonneg
    · subst henvs
      have hall : Regular ((before ++ [last]) ++ (errs ++ [e])) := by simpa using h
      obtain ⟨l, x, hl, htx, hactivity⟩ := presence_of_reported hw hall.init herrs hp₀
      rw [hid] at hl
      simp only [hpres, hl, latestActivity_snoc, hactivity, htx]
      refine ⟨(le_max_left _ _).trans (le_max_left _ _), fun hle => ?_⟩
      rw [if_neg (UInt64.not_lt.2 hle), max_eq_left]
      exact hnonneg.trans (le_max_right _ _)
  · have hall : List.Forall₂ SameButTx (envs ++ [e]) (envs' ++ [e']) :=
      List.rel_append hsame (.cons hlast .nil)
    have hactivity : ∀ id, latestActivity (presence id (envs' ++ [e'])) =
        latestActivity (presence id (envs ++ [e])) := fun id => by
      rw [← latestActivity_withoutRx, ← presence_sameButTx hall id, latestActivity_withoutRx]
    rw [reported_eq hw' (h.of_sameButTx hall), reported_eq hw h, List.map_map, List.map_map]
    have hpair : ∀ l : List PeerStatus, l.map ((fun p => (p.id, p.activity)) ∘ fun p =>
        { p with activity := latestActivity (presence p.id (envs ++ [e])) }) =
        (l.map PeerStatus.withoutRx).map fun p =>
          (p.id, latestActivity (presence p.id (envs ++ [e]))) := fun l => by
      rw [List.map_map]
      rfl
    simp only [hactivity]
    rw [hpair, hpair, hlast.entries_eq]

theorem activity_of_run_sample :
    (∀ p ∈ (Sample.worker.after [Sample.first]).reported Sample.second,
      p.activity = latestActivity (presence p.id ([Sample.first] ++ [Sample.second]))) ∧
    ((Sample.worker.after [Sample.first]).reported Sample.second).map (·.activity) =
      [unixTime 2001] :=
  ⟨fun p hp => ((activity_of_run rfl Sample.regular rfl).1 p hp).2.1, by decide +kernel⟩

end QuicLab.AwgServer
