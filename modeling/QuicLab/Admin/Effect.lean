import QuicLab.Admin.Provision
import QuicLab.Admin.Server

/-!
# What a call does to the store

Every operation of the store changes its memory first, and undoes the change by
hand when the save fails. `Call.effect` says what is left of that, once for all
operations: a call that fails leaves the state, the file and the sessions as they
were; one that succeeds has saved its change; and the statistics change nothing
but the last connection of a user, saved or not. The invariants of the store are
derived from that.
-/

namespace QuicLab.Admin

open Go
open AwgServer (Config Identity Peer PeerSeed IdentitySeed)

/-- A user without its last connection, the fields that are saved best effort. -/
def User.core (u : User) : User :=
  { u with lastConnected := 0, lastTransport := [], lastSource := [] }

/-- A state without the last connections. -/
def DiskState.core (d : DiskState) : DiskState := { d with users := d.users.mapVals User.core }

/-- The identity made of a seed. -/
def identityOf (seed : IdentitySeed) : Identity where
  privateKey := base64Encode seed.privateKey
  publicKey := base64Encode seed.publicKey
  headers := (AwgServer.pickHeaders 4 [] seed.draws).get seed.enough

/-- The sessions of the store stay. -/
structure SameSessions (s s' : Store) : Prop where
  active : s'.active = s.active
  protocols : s'.sessionProtocols = s.sessionProtocols

/-- State, file and sessions stay. -/
structure Kept (s s' : Store) : Prop extends SameSessions s s' where
  state : s'.state = s.state
  file : s'.file = s.file

/-- The state `d` is taken and saved, and the sessions stay. -/
structure Saved (s : Store) (d : DiskState) (s' : Store) : Prop extends SameSessions s s' where
  state : s'.state = d
  file : s'.file = some d

/-- The name is not that of another user than `id`. -/
def Unused (users : Map Bytes User) (id name : Bytes) : Prop :=
  ∀ other v, users.lookup other = some v → other ≠ id → v.name ≠ name

/-- What a call can do: the error it returns, the request it leaves, and the
    store after it. -/
inductive Effect (A : Assumptions) (s : Store) : Option Error × Option Request × Store → Prop
  | failed {s' : Store} {e : Error} (kept : Kept s s') : Effect A s (some e, none, s')
  | noted {s' : Store} (sessions : SameSessions s s') (core : s'.state.core = s.state.core)
      (file : s'.file = s.file ∨ s'.file = some s'.state) : Effect A s (none, none, s')
  | identity {s' : Store} {seed : IdentitySeed} (unset : s.state.awg = none)
      (saved : Saved s { s.state with awg := some (identityOf seed) } s') :
      Effect A s (none, none, s')
  | created {s' : Store} {u : User} {seed : Except String PeerSeed}
      (fresh : A.freshKeys → FreshKey seed s) (id : s.state.users.lookup u.id = none)
      (size : s.state.users.len < 1000)
      (length : 1 ≤ u.name.length ∧ u.name.length ≤ 100) (unused : Unused s.state.users u.id u.name)
      (protocols : ValidProtocols u.protocols)
      (provisioned : Provisioned s seed u.protocols none u.awg)
      (saved : Saved s { s.state with users := s.state.users.insert u.id u } s') :
      Effect A s (none, none, s')
  | renamed {s' : Store} {id name : Bytes} {old : User} (user : s.state.users.lookup id = some old)
      (length : 1 ≤ name.length ∧ name.length ≤ 100) (unused : Unused s.state.users id name)
      (saved : Saved s
        { s.state with users := s.state.users.insert id { old with name := name } } s') :
      Effect A s (none, none, s')
  | set {s' : Store} {id : Bytes} {old u : User} {ps : List Bytes} {seed : Except String PeerSeed}
      {disabled : Bool} {awg : Option Peer} (fresh : A.freshKeys → FreshKey seed s)
      (user : s.state.users.lookup id = some old) (protocols : ValidProtocols (some ps))
      (provisioned : Provisioned s seed (some ps) old.awg awg)
      (eq : u = { old with protocols := some ps, disabled := disabled, awg := awg })
      (saved : Saved s { s.state with users := s.state.users.insert id u } s') :
      Effect A s (none, some ⟨id, some (ps, disabled), s.revoked id u disabled,
        s.revoked id u disabled⟩, s')
  | deleted {s' : Store} {id : Bytes} {old : User} (user : s.state.users.lookup id = some old)
      (state : s'.state = { s.state with users := s.state.users.erase id })
      (file : s'.file = some s'.state) (active : s'.active = s.active.erase id)
      (protocols : s'.sessionProtocols = s.sessionProtocols) :
      Effect A s
        (none, some ⟨id, none, (s.active.lookup id).getD ∅, (s.active.lookup id).getD ∅⟩, s')

variable {A : Assumptions}

/-! ## Statistics -/

variable {s : Store} {id : Bytes}

theorem core_connected {u : User} (h : s.state.users.lookup id = some u) (time : Time)
    (transport source : Bytes) :
    (s.connected id u time transport source).state.core = s.state.core := by
  refine congrArg (fun users => { s.state with users := users }) ?_
  refine Finmap.ext_lookup fun id' => ?_
  rw [Map.lookup_mapVals, Map.lookup_mapVals, Store.connected, Map.lookup_insert']
  split_ifs with hid
  · rw [hid, h]
    rfl
  · rfl

/-- Statistics: the sessions and the file stay, and the state but for last
    connections. -/
structure Noted (s s' : Store) : Prop extends SameSessions s s' where
  core : s'.state.core = s.state.core
  file : s'.file = s.file

theorem Noted.trans {s s' s'' : Store} (h : Noted s s') (h' : Noted s' s'') : Noted s s'' where
  active := h'.active.trans h.active
  protocols := h'.protocols.trans h.protocols
  core := h'.core.trans h.core
  file := h'.file.trans h.file

theorem noted_connected {s s' : Store} (hk : Kept s s') {u : User}
    (h : s.state.users.lookup id = some u) (time : Time) (transport source : Bytes) :
    Noted s (s'.connected id u time transport source) where
  active := hk.active
  protocols := hk.protocols
  core := by
    rw [core_connected (by rw [hk.state, h]), hk.state]
  file := hk.file

/-- Saved or not, statistics are statistics. -/
theorem Noted.effect {s s' : Store} (h : Noted s s') (err : Option String) :
    Effect A s (none, none, (s'.save err).2) := by
  cases err with
  | none => exact .noted ⟨h.active, h.protocols⟩ h.core (.inr rfl)
  | some e => exact .noted ⟨h.active, h.protocols⟩ h.core (.inl h.file)

theorem kept_countPeer (now : Time) (p : AwgServer.PeerStatus) (s : Store) :
    Kept s (s.countPeer now p) := ⟨⟨rfl, rfl⟩, rfl, rfl⟩

theorem Kept.noted {s s' : Store} (h : Kept s s') : Noted s s' :=
  ⟨h.toSameSessions, by rw [h.state], h.file⟩

theorem noted_observePeer (now : Time) (acc : Bool × Store) (p : AwgServer.PeerStatus) :
    Noted acc.2 (Store.observePeer now acc p).2 := by
  have hk := kept_countPeer now p acc.2
  rw [Store.observePeer]
  split
  · exact ⟨⟨rfl, rfl⟩, rfl, rfl⟩
  · rename_i u hu
    split_ifs
    · exact ⟨⟨rfl, rfl⟩, rfl, rfl⟩
    · exact noted_connected hk hu _ _ _
    · exact noted_connected hk hu _ _ _
    · exact hk.noted

theorem noted_observePeers (now : Time) (peers : List AwgServer.PeerStatus) (acc : Bool × Store) :
    Noted acc.2 (peers.foldl (Store.observePeer now) acc).2 := by
  induction peers generalizing acc with
  | nil => exact ⟨⟨rfl, rfl⟩, rfl, rfl⟩
  | cons p peers ih => exact (noted_observePeer now acc p).trans (ih _)

theorem observeAWG_effect (s : Store) (status : AwgServer.Status) (now : Time)
    (err : Option String) : Effect A s (none, none, s.observeAWG status now err) := by
  have hk : Kept s (s.endPeers.takeStatus status) := ⟨⟨rfl, rfl⟩, rfl, rfl⟩
  have h := hk.noted.trans
    (noted_observePeers now status.peers (false, s.endPeers.takeStatus status))
  simp only [Store.observeAWG]
  split_ifs
  · exact .noted ⟨rfl, rfl⟩ rfl (.inl rfl)
  · exact h.effect err
  · exact .noted h.toSameSessions h.core (.inl h.file)

theorem kept_endLive (id token : Bytes) (s : Store) : Kept s (s.endLive id token) := by
  rw [Store.endLive]
  split <;> exact ⟨⟨rfl, rfl⟩, rfl, rfl⟩

theorem trackDone_effect (s : Store) (id token : Bytes) (since : Time) (peer : Bytes)
    (err : Option String) : Effect A s (none, none, s.trackDone id token since peer err) := by
  have hk := kept_endLive id token s
  rw [Store.trackDone]
  split
  · exact .noted hk.toSameSessions hk.noted.core (.inl hk.file)
  · rename_i u hu
    split_ifs
    · exact .noted hk.toSameSessions hk.noted.core (.inl hk.file)
    · exact (noted_connected hk hu _ _ _).effect err

/-- The user a connection belongs to is one of the store. -/
theorem allowed_ok (hkeys : ∀ id u, s.state.users.lookup id = some u → u.id = id) {x : Certs}
    {cs : ConnectionState} {now : Time} (h : s.allowed x cs now = .ok id) :
    ∃ u, s.state.users.lookup id = some u ∧ u.disabled = false := by
  rw [Store.allowed] at h
  split at h
  · split at h
    · cases h
    · rename_i u hu
      split_ifs at h with hdis
      split at h
      · cases h
      · split_ifs at h
        cases h
        rw [not_or, Bool.not_eq_true] at hdis
        exact ⟨u, by rw [hkeys _ u hu]; exact hu, hdis.1⟩
  · cases h

theorem track_effect (hkeys : ∀ id u, s.state.users.lookup id = some u → u.id = id) (x : Certs)
    (cs : ConnectionState) (transport peer : Bytes) (now : Time) (token : Bytes)
    (err : Option String) :
    Effect A s (none, none, (s.track x cs transport peer now token err).2) := by
  rw [Store.track]
  split
  · exact .noted ⟨rfl, rfl⟩ rfl (.inl rfl)
  · rename_i id hid
    obtain ⟨u, hu, _⟩ := allowed_ok hkeys hid
    have hk : Kept s (s.startLive id token transport now) := ⟨⟨rfl, rfl⟩, rfl, rfl⟩
    rw [hu, Option.getD_some]
    exact (noted_connected hk hu _ _ _).effect err

/-! ## Users -/

section

variable {s : Store}

/-- A user is replaced and saved, or, with an error, nothing changes. -/
theorem replace_cases {id : Bytes} {old : User} (hold : s.state.users.lookup id = some old)
    (u : User) (err : Option String) :
    (∃ e s', s.replace id old u err = (some e, s') ∧ Kept s s') ∨
      ∃ s', s.replace id old u err = (none, s') ∧
        Saved s { s.state with users := s.state.users.insert id u } s' := by
  cases err with
  | none => exact .inr ⟨_, rfl, ⟨⟨rfl, rfl⟩, rfl, rfl⟩⟩
  | some e =>
    refine .inl ⟨_, _, rfl, ⟨⟨rfl, rfl⟩, ?_, rfl⟩⟩
    exact congrArg (fun users => { s.state with users := users })
      (Map.insert_insert_of_lookup hold u)

/-- A user is added and saved, or, with an error, nothing changes. -/
theorem add_cases {u : User} (hnew : s.state.users.lookup u.id = none) (err : Option String) :
    (∃ e s', s.add u err = (.error e, s') ∧ Kept s s') ∨
      ∃ s', s.add u err = (.ok u, s') ∧
        Saved s { s.state with users := s.state.users.insert u.id u } s' := by
  cases err with
  | none => exact .inr ⟨_, rfl, ⟨⟨rfl, rfl⟩, rfl, rfl⟩⟩
  | some e =>
    refine .inl ⟨_, _, rfl, ⟨⟨rfl, rfl⟩, ?_, rfl⟩⟩
    exact congrArg (fun users => { s.state with users := users })
      (Map.erase_insert_of_lookup_none hnew u)

theorem configureAWG_effect (c : Option Config) (seed : Except String IdentitySeed)
    (err : Option String) :
    Effect A s ((s.configureAWG c seed err).1, none, (s.configureAWG c seed err).2) := by
  cases c with
  | none => exact .noted ⟨rfl, rfl⟩ rfl (.inl rfl)
  | some c =>
    rw [Store.configureAWG]
    split
    · exact .failed ⟨⟨rfl, rfl⟩, rfl, rfl⟩
    · simp only
      split_ifs with hawg
      · exact .noted ⟨rfl, rfl⟩ rfl (.inl rfl)
      · have hnone : s.state.awg = none := Option.not_isSome_iff_eq_none.1 hawg
        cases seed with
        | error e => exact .failed ⟨⟨rfl, rfl⟩, rfl, rfl⟩
        | ok seed =>
          cases err with
          | none => exact .identity hnone ⟨⟨rfl, rfl⟩, rfl, rfl⟩
          | some e =>
            refine .failed ⟨⟨rfl, rfl⟩, ?_, rfl⟩
            exact congrArg (fun awg => { s.state with awg := awg }) hnone.symm

theorem rename_effect (id name : Bytes) (err : Option String) :
    Effect A s ((s.rename id name err).1, none, (s.rename id name err).2) := by
  rw [Store.rename]
  split
  · exact .failed ⟨⟨rfl, rfl⟩, rfl, rfl⟩
  · rename_i old hold
    split_ifs with hlen hused
    · exact .failed ⟨⟨rfl, rfl⟩, rfl, rfl⟩
    · exact .failed ⟨⟨rfl, rfl⟩, rfl, rfl⟩
    · obtain ⟨e, s', hr, hk⟩ | ⟨s', hr, hs⟩ := replace_cases hold { old with name := name } err
      · rw [hr]
        exact .failed hk
      · rw [hr]
        refine .renamed hold (by omega) (fun other v hv hne hname => hused ?_) hs
        exact Map.any_iff.2 ⟨other, v, hv, hne, hname⟩

theorem setProtocols_effect (hvalid : ∀ c ∈ s.awgConfig, c.validate = none) {id : Bytes}
    {ps : List Bytes} {disabled : Bool} {seed : Except String PeerSeed}
    (hfresh : A.freshKeys → FreshKey seed s) (err : Option String) (x : Certs) :
    Effect A s ((Call.setProtocols id ps disabled seed err).apply x s) := by
  rw [Call.apply, Store.setProtocols]
  cases hold : s.state.users.lookup id with
  | none => exact .failed ⟨⟨rfl, rfl⟩, rfl, rfl⟩
  | some old =>
    simp only
    cases hprov : s.provisionAWG seed { old with protocols := some ps, disabled := disabled } with
    | error e => exact .failed ⟨⟨rfl, rfl⟩, rfl, rfl⟩
    | ok u =>
      obtain ⟨hps, awg, hu, hawg⟩ := provisionAWG_ok hvalid hprov
      simp only
      obtain ⟨e, s', hr, hk⟩ | ⟨s', hr, hs⟩ := replace_cases hold u err
      · rw [hr]
        exact .failed hk
      · have hrev : s'.revoked id u disabled = s.revoked id u disabled := by
          rw [Store.revoked, Store.revoked, hs.active, hs.protocols]
        rw [hr]
        simp only [hrev]
        exact .set hfresh hold hps hawg hu hs

theorem delete_effect (id : Bytes) (err : Option String) (x : Certs) :
    Effect A s ((Call.delete id err).apply x s) := by
  rw [Call.apply, Store.delete]
  cases hold : s.state.users.lookup id with
  | none => exact .failed ⟨⟨rfl, rfl⟩, rfl, rfl⟩
  | some old =>
    cases err with
    | none => exact .deleted hold rfl rfl rfl rfl
    | some e =>
      refine .failed ⟨⟨rfl, rfl⟩, ?_, rfl⟩
      exact congrArg (fun users => { s.state with users := users })
        (Map.insert_erase_of_lookup hold)

theorem create_effect (hvalid : ∀ c ∈ s.awgConfig, c.validate = none) {env : Store.CreateEnv}
    (hid : s.state.users.lookup env.id = none) (hfresh : A.freshKeys → FreshKey env.peer s)
    (name : Bytes) (protocols : Option (List Bytes)) (x : Certs) :
    Effect A s ((Call.create env name protocols).apply x s) := by
  have hkept : Kept s s := ⟨⟨rfl, rfl⟩, rfl, rfl⟩
  rw [Call.apply, Store.createWithProtocols]
  by_cases hlen : name.length = 0 ∨ 100 < name.length
  · rw [if_pos hlen]
    exact .failed hkept
  by_cases hsize : 1000 ≤ s.state.users.len
  · rw [if_neg hlen, if_pos hsize]
    exact .failed hkept
  by_cases hused : s.state.users.Any fun _ u => u.name = name
  · rw [if_neg hlen, if_neg hsize, if_pos hused]
    exact .failed hkept
  rw [if_neg hlen, if_neg hsize, if_neg hused]
  cases env.generateKey with
  | some e => exact .failed hkept
  | none =>
    cases env.serial with
    | some e => exact .failed hkept
    | none =>
      simp only
      cases hprov : s.provisionAWG env.peer (Store.newUser env name protocols) with
      | error e => exact .failed hkept
      | ok u =>
        obtain ⟨hps, awg, rfl, hawg⟩ := provisionAWG_ok hvalid hprov
        simp only
        -- The expiry may be cut to that of the CA, which no field of `Effect` is about.
        generalize hu : (if s.notAfter < _ then _ else _ : User) = u
        have hfields : u.id = env.id ∧ u.name = name ∧ u.protocols = protocols ∧ u.awg = awg := by
          rw [← hu]
          split_ifs <;> exact ⟨rfl, rfl, rfl, rfl⟩
        by_cases hexp : u.expires ≤ env.now
        · rw [if_pos hexp]
          exact .failed hkept
        rw [if_neg hexp]
        cases env.certificate with
        | error e => exact .failed hkept
        | ok der =>
          cases env.keyDER with
          | error e => exact .failed hkept
          | ok kb =>
            simp only
            generalize hu' : ({ u with
              certificate := x.encode (str "CERTIFICATE") der ++ s.state.ca
              key := x.encode (str "PRIVATE KEY") kb } : User) = u'
            have hfields' : u'.id = env.id ∧ u'.name = name ∧ u'.protocols = protocols ∧
                u'.awg = awg := by
              rw [← hu']
              exact hfields
            obtain ⟨hid', rfl, rfl, rfl⟩ := hfields'
            have hnew : s.state.users.lookup u'.id = none := by rw [hid', hid]
            obtain ⟨e, s', hr, hk⟩ | ⟨s', hr, hs⟩ := add_cases hnew env.save
            · rw [hr]
              exact .failed hk
            · rw [hr]
              refine .created hfresh hnew (not_le.1 hsize) (by omega)
                (fun other v hv _ hn => hused ?_) hps hawg hs
              exact Map.any_iff.2 ⟨other, v, hv, hn⟩

end

/-- What a call does. -/
theorem Call.effect {c : Call} (h : c.Assumed A s)
    (hkeys : ∀ id u, s.state.users.lookup id = some u → u.id = id)
    (hvalid : ∀ c ∈ s.awgConfig, c.validate = none) (x : Certs) : Effect A s (c.apply x s) := by
  cases c with
  | configureAWG c seed err => exact configureAWG_effect c seed err
  | create env name protocols => exact create_effect hvalid h.1 h.2 name protocols x
  | rename id name err => exact rename_effect id name err
  | setProtocols id ps disabled seed err => exact setProtocols_effect hvalid h err x
  | delete id err => exact delete_effect id err x
  | track cs transport peer now token err =>
    exact track_effect hkeys x cs transport peer now token err
  | trackDone id token since peer err => exact trackDone_effect s id token since peer err
  | observeAWG status now err => exact observeAWG_effect s status now err

/-- A store is opened with the state in its file, or with a new one, which is saved. -/
theorem openStore_ok {env : Store.OpenEnv} {file : Option DiskState}
    (h : Store.openStore env file = .ok s) :
    ∃ d notAfter, s = Store.opened (some d) d notAfter ∧
      (file = some d ∨ file = none ∧ d.awg = none ∧ d.version = 1 ∧ d.users = ∅) := by
  unfold Store.openStore at h
  split at h
  · cases h
  · cases file with
    | some d =>
      simp only at h
      split_ifs at h
      split at h
      · cases h
      · cases h
        exact ⟨d, _, rfl, .inl rfl⟩
    | none =>
      simp only at h
      split at h
      · cases h
      · cases henv : env.save with
        | some e =>
          rw [henv] at h
          cases h
        | none =>
          rw [henv] at h
          cases h
          exact ⟨_, _, rfl, .inr ⟨rfl, rfl, rfl, rfl⟩⟩

/-- What a successful registration does. -/
theorem registerProtocol_ok {s s' : Store} {x : Certs} {cs : ConnectionState}
    {protocol token id : Bytes} {close : ℕ} {now : Time}
    (h : s.registerProtocol x cs protocol close now token = (.ok id, s')) :
    s.allowed x cs now = .ok id ∧ ((s.state.users.lookup id).getD .zero).allows protocol = true ∧
      s' = { s with
        active := s.active.insert id (((s.active.lookup id).getD ∅).insert token close)
        sessionProtocols := s.sessionProtocols.insert token protocol } := by
  rw [Store.registerProtocol] at h
  cases hid : s.allowed x cs now with
  | error e =>
    rw [hid] at h
    cases h
  | ok id' =>
    rw [hid] at h
    simp only at h
    split_ifs at h with hallow
    · cases h
      exact ⟨rfl, hallow, rfl⟩
    · cases h

/-! ## The configuration -/

theorem save_awgConfig (s : Store) (err : Option String) :
    (s.save err).2.awgConfig = s.awgConfig := by
  cases err <;> rfl

theorem replace_awgConfig (id : Bytes) (old u : User) (err : Option String) (s : Store) :
    (s.replace id old u err).2.awgConfig = s.awgConfig := by
  rw [Store.replace]
  cases err <;> rfl

theorem observePeers_awgConfig (now : Time) (peers : List AwgServer.PeerStatus)
    (acc : Bool × Store) :
    (peers.foldl (Store.observePeer now) acc).2.awgConfig = acc.2.awgConfig := by
  induction peers generalizing acc with
  | nil => rfl
  | cons p peers ih =>
    rw [List.foldl_cons, ih, Store.observePeer]
    split
    · rfl
    · split_ifs <;> rfl

theorem add_awgConfig (u : User) (err : Option String) (s : Store) :
    (s.add u err).2.awgConfig = s.awgConfig := by
  rw [Store.add]
  cases err <;> rfl

theorem createWithProtocols_awgConfig (x : Certs) (env : Store.CreateEnv) (name : Bytes)
    (protocols : Option (List Bytes)) (s : Store) :
    (s.createWithProtocols x env name protocols).2.awgConfig = s.awgConfig := by
  simp only [Store.createWithProtocols]
  repeat' split
  all_goals first | rfl | exact add_awgConfig _ _ s

theorem setProtocols_awgConfig (id : Bytes) (ps : List Bytes) (disabled : Bool)
    (seed : Except String PeerSeed) (err : Option String) (s : Store) :
    (s.setProtocols id ps disabled seed err).2.awgConfig = s.awgConfig := by
  rw [Store.setProtocols]
  split
  · rfl
  · split
    · rfl
    · rename_i old _ _ u _
      have hr := replace_awgConfig id old u err s
      generalize s.replace id old u err = r at hr ⊢
      obtain ⟨_ | _, s'⟩ := r <;> exact hr

theorem trackDone_awgConfig (id token : Bytes) (since : Time) (peer : Bytes)
    (err : Option String) (s : Store) :
    (s.trackDone id token since peer err).awgConfig = s.awgConfig := by
  have hlive : (s.endLive id token).awgConfig = s.awgConfig := by
    rw [Store.endLive]
    split <;> rfl
  rw [Store.trackDone]
  repeat' split
  all_goals first | exact hlive | (rw [save_awgConfig]; exact hlive)

theorem observeAWG_awgConfig (status : AwgServer.Status) (now : Time) (err : Option String)
    (s : Store) : (s.observeAWG status now err).awgConfig = s.awgConfig := by
  simp only [Store.observeAWG]
  split_ifs
  · rfl
  · rw [save_awgConfig, observePeers_awgConfig]
    rfl
  · rw [observePeers_awgConfig]
    rfl

/-- A valid configuration stays, also when the identity cannot be generated or saved. -/
theorem configureAWG_awgConfig {c : Config} (hvalid : c.validate = none)
    (seed : Except String IdentitySeed) (err : Option String) (s : Store) :
    (s.configureAWG (some c) seed err).2.awgConfig = some c := by
  rw [Store.configureAWG, hvalid]
  simp only
  split_ifs
  · rfl
  · cases seed with
    | error e => rfl
    | ok seed => cases err <;> rfl

/-- Only `ConfigureAWG` changes the configuration, and only to a valid one. -/
theorem Call.awgConfig_apply (x : Certs) (c : Call) (s : Store) :
    (c.apply x s).2.2.awgConfig = s.awgConfig ∨
      ∃ c' seed err, c = .configureAWG (some c') seed err ∧ c'.validate = none ∧
        (c.apply x s).2.2.awgConfig = some c' := by
  cases c with
  | configureAWG c seed err =>
    cases c with
    | none => exact .inl rfl
    | some c =>
      cases hvalid : c.validate with
      | none => exact .inr ⟨c, seed, err, rfl, hvalid, configureAWG_awgConfig hvalid seed err s⟩
      | some e =>
        refine .inl ?_
        rw [Call.apply, Store.configureAWG, hvalid]
  | create env name protocols =>
    have h := createWithProtocols_awgConfig x env name protocols s
    rw [Call.apply]
    generalize s.createWithProtocols x env name protocols = r at h ⊢
    obtain ⟨_ | _, s'⟩ := r <;> exact .inl h
  | rename id name err =>
    refine .inl ?_
    rw [Call.apply, Store.rename]
    repeat' split
    all_goals first | rfl | exact replace_awgConfig _ _ _ _ s
  | setProtocols id ps disabled seed err =>
    have h := setProtocols_awgConfig id ps disabled seed err s
    rw [Call.apply]
    generalize s.setProtocols id ps disabled seed err = r at h ⊢
    obtain ⟨_ | _, s'⟩ := r <;> exact .inl h
  | delete id err =>
    refine .inl ?_
    rw [Call.apply, Store.delete]
    cases s.state.users.lookup id with
    | none => rfl
    | some u => cases err <;> rfl
  | track cs transport peer now token err =>
    refine .inl ?_
    rw [Call.apply, Store.track]
    split
    · rfl
    · rw [save_awgConfig]
      rfl
  | trackDone id token since peer err => exact .inl (trackDone_awgConfig id token since peer err s)
  | observeAWG status now err => exact .inl (observeAWG_awgConfig status now err s)

end QuicLab.Admin
