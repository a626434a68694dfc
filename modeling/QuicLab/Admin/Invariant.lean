import QuicLab.Admin.Effect

/-!
# The invariant of the identity store

Over any calls, failing or not, stops and reopenings, the store keeps its
representation (`StateInv`): users under their ids, with distinct names, valid
protocols and the AWG peers they need, at distinct hosts of the one network; and
memory and file agree but for last connections (`Inv`).

* `store_invariant`: the invariant of a running store, and that provisioning
  gives up only when all hosts are taken;
* `call_atomic`: a call that fails changes nothing, and the file agrees with the
  memory after any calls.
-/

namespace QuicLab.Admin

open Go Netip
open AwgServer (Config Identity Peer PeerSeed IdentitySeed Host Key sampleConfig sampleKey)

/-- The peer of a user: a host of the configured network, and keys of 32 bytes. -/
structure PeerOK (A : Assumptions) (p : Peer) : Prop where
  address : ∃ c network a, A.config c ∧ c.validate = none ∧
    parsePrefix c.address = some network ∧ Host network a ∧ p.address = (Addr.v4 a).string
  keys : ∃ publicKey psk : Key, p.publicKey = base64Encode publicKey ∧ p.psk = base64Encode psk

/-- The representation of the users, in memory or in the file. -/
structure StateInv (A : Assumptions) (d : DiskState) : Prop where
  version : d.version = 1
  id : ∀ id u, d.users.lookup id = some u → u.id = id
  size : d.users.len ≤ 1000
  name : ∀ id u, d.users.lookup id = some u → 1 ≤ u.name.length ∧ u.name.length ≤ 100
  names : d.users.Distinct fun u => some u.name
  protocols : ∀ id u, d.users.lookup id = some u → ValidProtocols u.protocols
  hasPeer : ∀ id u, d.users.lookup id = some u → u.allows (str "awg") → u.awg.isSome
  peer : ∀ id u p, d.users.lookup id = some u → u.awg = some p → PeerOK A p ∧ d.awg.isSome
  addresses : d.users.Distinct fun u => u.awg.map (·.address)
  keys : A.freshKeys → d.users.Distinct fun u => u.awg.map (·.publicKey)
  identity : ∀ i, d.awg = some i → ∃ k : Key, i.privateKey = base64Encode k

/-- The invariant of a running store: its configuration is the valid one, its
    users are well represented, and its file agrees with them. -/
structure Inv (A : Assumptions) (s : Store) : Prop where
  config : ∀ c, s.awgConfig = some c → A.config c ∧ c.validate = none
  state : StateInv A s.state
  file : ∃ d, s.file = some d ∧ d.core = s.state.core

namespace StateInv

variable {A : Assumptions} {d d' : DiskState}

variable {id : Bytes}

theorem lookup_of_core (h : d.core = d'.core) {u' : User} (hu : d'.users.lookup id = some u') :
    ∃ u, d.users.lookup id = some u ∧ u.core = u'.core := by
  have hlook := congrArg (fun d : DiskState => d.users.lookup id) h
  simp only [DiskState.core] at hlook
  rw [Map.lookup_mapVals, Map.lookup_mapVals, hu] at hlook
  exact Option.map_eq_some_iff.1 hlook

/-- The invariant does not depend on last connections. -/
theorem congr (h : StateInv A d) (hcore : d.core = d'.core) : StateInv A d' := by
  have hawg : d.awg = d'.awg := (congrArg DiskState.awg hcore :)
  have hlen : d.users.len = d'.users.len := by
    have := congrArg (fun d : DiskState => d.users.len) hcore
    simp only [DiskState.core, Map.len_mapVals] at this
    exact this
  -- The fields of a user other than its last connection.
  have hfields : ∀ id u', d'.users.lookup id = some u' → ∃ u, d.users.lookup id = some u ∧
      u.id = u'.id ∧ u.name = u'.name ∧ u.protocols = u'.protocols ∧ u.awg = u'.awg := by
    intro id u' hu'
    obtain ⟨u, hu, hc⟩ := lookup_of_core hcore hu'
    exact ⟨u, hu, (congrArg User.id hc :), (congrArg User.name hc :),
      (congrArg User.protocols hc :), (congrArg User.awg hc :)⟩
  have hdistinct : ∀ f : User → Option Bytes,
      (∀ u u' : User, u.name = u'.name → u.awg = u'.awg → f u = f u') →
      d.users.Distinct f → d'.users.Distinct f := by
    intro f hf hd i j u' v' t hu' hv' hut hvt
    obtain ⟨u, hu, _, hun, _, hua⟩ := hfields i u' hu'
    obtain ⟨v, hv, _, hvn, _, hva⟩ := hfields j v' hv'
    exact hd i j u v t hu hv (by rw [hf u u' hun hua, hut]) (by rw [hf v v' hvn hva, hvt])
  refine ⟨?_, fun id u' hu' => ?_, ?_, fun id u' hu' => ?_, ?_, fun id u' hu' => ?_,
    fun id u' hu' hallow => ?_, fun id u' p hu' hp => ?_, ?_, ?_, fun i hi => ?_⟩
  · rw [← h.version]
    exact (congrArg DiskState.version hcore).symm
  · obtain ⟨u, hu, hid, _⟩ := hfields id u' hu'
    rw [← hid]
    exact h.id id u hu
  · rw [← hlen]
    exact h.size
  · obtain ⟨u, hu, _, hn, _⟩ := hfields id u' hu'
    rw [← hn]
    exact h.name id u hu
  · exact hdistinct _ (fun u u' hn _ => congrArg some hn) h.names
  · obtain ⟨u, hu, _, _, hps, _⟩ := hfields id u' hu'
    rw [← hps]
    exact h.protocols id u hu
  · obtain ⟨u, hu, _, _, hps, ha⟩ := hfields id u' hu'
    rw [← ha]
    rw [User.allows, ← hps] at hallow
    exact h.hasPeer id u hu hallow
  · obtain ⟨u, hu, _, _, _, ha⟩ := hfields id u' hu'
    rw [← hawg]
    exact h.peer id u p hu (ha.trans hp)
  · exact hdistinct _ (fun u u' _ ha => congrArg (Option.map _) ha) h.addresses
  · exact fun hkeys => hdistinct _ (fun u u' _ ha => congrArg (Option.map _) ha) (h.keys hkeys)
  · exact h.identity i (hawg.trans hi)

/-- Adding or replacing a user keeps the invariant, if its name, its address and
    its key are not those of another one. -/
theorem put (h : StateInv A d) {u : User} (hid : u.id = id)
    (hsize : (d.users.lookup id).isSome ∨ d.users.len < 1000)
    (hname : 1 ≤ u.name.length ∧ u.name.length ≤ 100) (hunused : Unused d.users id u.name)
    (hps : ValidProtocols u.protocols) (hhas : u.allows (str "awg") → u.awg.isSome)
    (hpeer : ∀ p, u.awg = some p → PeerOK A p ∧ d.awg.isSome ∧ ∀ j v q, d.users.lookup j = some v → j ≠ id → v.awg = some q → q.address ≠ p.address ∧ (A.freshKeys → q.publicKey ≠ p.publicKey)) :
    StateInv A { d with users := d.users.insert id u } := by
  -- A property of all users is one of the new user and of the others.
  have hall : ∀ P : Bytes → User → Prop, P id u → (∀ i v, d.users.lookup i = some v → P i v) →
      ∀ i v, (d.users.insert id u).lookup i = some v → P i v := by
    intro P hu hd i v hv
    rw [Map.lookup_insert'] at hv
    split_ifs at hv with hi
    · cases hv
      rw [hi]
      exact hu
    · exact hd i v hv
  have hother : ∀ f : Peer → Bytes, (∀ p q : Peer, u.awg = some p → ∀ j v,
      d.users.lookup j = some v → j ≠ id → v.awg = some q → f q ≠ f p) →
      d.users.Distinct (fun v => v.awg.map f) →
      Map.Distinct (fun v => v.awg.map f) (d.users.insert id u) := by
    intro f hf hd
    refine hd.insert fun j v t hv hj hu hvt => ?_
    obtain ⟨p, hp, rfl⟩ := Option.map_eq_some_iff.1 hu
    obtain ⟨q, hq, hqp⟩ := Option.map_eq_some_iff.1 hvt
    exact hf p q hp j v hv hj hq hqp
  refine ⟨h.version, hall _ hid h.id, ?_, hall _ hname h.name, ?_, hall _ hps h.protocols,
    hall _ hhas h.hasPeer, fun i v p hv => ?_, ?_, ?_, h.identity⟩
  · obtain hsome | hlt := hsize
    · obtain ⟨old, hold⟩ := Option.isSome_iff_exists.1 hsome
      rw [Map.len_insert_of_lookup hold]
      exact h.size
    · cases hlook : d.users.lookup id with
      | none =>
        rw [Map.len_insert_of_lookup_none hlook]
        omega
      | some old =>
        rw [Map.len_insert_of_lookup hlook]
        exact h.size
  · refine h.names.insert fun j v t hv hj hu hvt => hunused j v hv hj ?_
    exact Option.some.inj (hvt.trans hu.symm)
  · exact hall (fun _ v => v.awg = some p → PeerOK A p ∧ d.awg.isSome)
      (fun hp => ⟨(hpeer p hp).1, (hpeer p hp).2.1⟩) (fun i v hv hp => h.peer i v p hv hp) i v hv
  · exact hother _ (fun p q hp j v hv hj hq => ((hpeer p hp).2.2 j v q hv hj hq).1) h.addresses
  · exact fun hkeys => hother _
      (fun p q hp j v hv hj hq => ((hpeer p hp).2.2 j v q hv hj hq).2 hkeys) (h.keys hkeys)

/-- Deleting a user keeps the invariant. -/
theorem erase (h : StateInv A d) (id : Bytes) :
    StateInv A { d with users := d.users.erase id } := by
  have hsub : ∀ i v, (d.users.erase id).lookup i = some v → d.users.lookup i = some v := by
    intro i v hv
    rw [Map.lookup_erase'] at hv
    split_ifs at hv
    exact hv
  exact ⟨h.version, fun i v hv => h.id i v (hsub i v hv),
    (Map.len_erase_le d.users id).trans h.size, fun i v hv => h.name i v (hsub i v hv),
    h.names.erase id, fun i v hv => h.protocols i v (hsub i v hv),
    fun i v hv => h.hasPeer i v (hsub i v hv), fun i v p hv => h.peer i v p (hsub i v hv),
    h.addresses.erase id, fun hkeys => (h.keys hkeys).erase id, h.identity⟩

/-- The peer of a user is well formed, and unlike those of the others. -/
theorem peer_others (h : StateInv A d) {u : User} {p : Peer} (hu : d.users.lookup id = some u)
    (hp : u.awg = some p) :
    PeerOK A p ∧ d.awg.isSome ∧ ∀ j v q, d.users.lookup j = some v → j ≠ id → v.awg = some q →
      q.address ≠ p.address ∧ (A.freshKeys → q.publicKey ≠ p.publicKey) := by
  obtain ⟨hok, hawg⟩ := h.peer id u p hu hp
  refine ⟨hok, hawg, fun j v q hv hj hq => ⟨fun heq => hj ?_, fun hkeys heq => hj ?_⟩⟩
  · exact h.addresses j id v u q.address hv hu (Option.map_eq_some_iff.2 ⟨q, hq, rfl⟩)
      (Option.map_eq_some_iff.2 ⟨p, hp, heq.symm⟩)
  · exact h.keys hkeys j id v u q.publicKey hv hu (Option.map_eq_some_iff.2 ⟨q, hq, rfl⟩)
      (Option.map_eq_some_iff.2 ⟨p, hp, heq.symm⟩)

end StateInv

namespace Inv

variable {A : Assumptions} {s s' : Store}

/-- The peer that provisioning gives is well formed, and unlike those of others. -/
theorem provisioned (h : Inv A s) {seed : Except String PeerSeed}
    (hfresh : A.freshKeys → FreshKey seed s) {id : Bytes} {ps : Option (List Bytes)}
    {awg awg' : Option Peer}
    (hold : awg = none ∨ ∃ old, s.state.users.lookup id = some old ∧ old.awg = awg)
    (hprov : Provisioned s seed ps awg awg') :
    (AwgServer.enabled ps (str "awg") → awg'.isSome) ∧
      ∀ p, awg' = some p → PeerOK A p ∧ s.state.awg.isSome ∧
        ∀ j v q, s.state.users.lookup j = some v → j ≠ id → v.awg = some q →
          q.address ≠ p.address ∧ (A.freshKeys → q.publicKey ≠ p.publicKey) := by
  cases hprov with
  | same hhas =>
    refine ⟨hhas, fun p hp => ?_⟩
    obtain rfl | ⟨old, hlook, rfl⟩ := hold
    · cases hp
    · exact h.state.peer_others hlook hp
  | @peer c network a keys hconfig hawg _ hparse hhost hfree hseed =>
    refine ⟨fun _ => rfl, fun p hp => ?_⟩
    cases hp
    obtain ⟨hcfg, hvalid⟩ := h.config c hconfig
    refine ⟨⟨⟨c, network, a, hcfg, hvalid, hparse, hhost, rfl⟩,
        ⟨keys.publicKey, keys.psk, rfl, rfl⟩⟩, hawg,
      fun j v q hv _ hq => ⟨fun heq => ?_, fun hkeys => hfresh hkeys keys hseed j v q hv hq⟩⟩
    exact hfree ⟨j, v, q, hv, hq, heq⟩

/-- What a call can do keeps the users well represented. -/
theorem state_of_effect (h : Inv A s) {e : Option Error} {r : Option Request}
    (heff : Effect A s (e, r, s')) : StateInv A s'.state := by
  cases heff with
  | failed hk => exact hk.state ▸ h.state
  | noted _ hcore _ => exact h.state.congr hcore.symm
  | @identity _ seed hunset hs =>
    rw [hs.state]
    refine { h.state with peer := fun id u p hu hp => ?_, identity := fun i hi => ?_ }
    · exact ⟨(h.state.peer id u p hu hp).1, rfl⟩
    · cases hi
      exact ⟨seed.privateKey, rfl⟩
  | @created _ u seed hfresh hid hsize hname hunused hps hprov hs =>
    rw [hs.state]
    obtain ⟨hhas, hpeer⟩ := h.provisioned hfresh (.inl rfl) hprov
    exact h.state.put rfl (.inr hsize) hname hunused hps hhas hpeer
  | @renamed _ id name old hold hname hunused hs =>
    rw [hs.state]
    refine h.state.put (h.state.id id old hold) (.inl (by rw [hold]; rfl)) hname hunused
      (h.state.protocols id old hold) (h.state.hasPeer id old hold) fun p hp => ?_
    exact h.state.peer_others hold hp
  | @set _ id old u ps seed disabled awg hfresh hold hps hprov hu hs =>
    rw [hs.state]
    obtain ⟨hhas, hpeer⟩ := h.provisioned hfresh (.inr ⟨old, hold, rfl⟩) hprov
    subst hu
    refine h.state.put (h.state.id id old hold) (.inl (by rw [hold]; rfl))
      (h.state.name id old hold) (fun other v hv hne hn => hne ?_) hps hhas hpeer
    exact h.state.names other id v old _ hv hold rfl (congrArg some hn.symm)
  | @deleted _ id old hold hstate hfile hactive hprotocols =>
    rw [hstate]
    exact h.state.erase id

/-- After what a call can do, the file agrees with the memory. -/
theorem file_of_effect (h : Inv A s) {e : Option Error} {r : Option Request}
    (heff : Effect A s (e, r, s')) : ∃ d, s'.file = some d ∧ d.core = s'.state.core := by
  have hsaved : ∀ {d}, Saved s d s' → ∃ d, s'.file = some d ∧ d.core = s'.state.core :=
    fun {d} hs => ⟨d, hs.file, by rw [hs.state]⟩
  cases heff with
  | failed hk =>
    obtain ⟨d, hd, hcore⟩ := h.file
    exact ⟨d, hk.file.trans hd, by rw [hk.state, hcore]⟩
  | noted _ hcore hfile =>
    obtain hfile | hfile := hfile
    · obtain ⟨d, hd, hd'⟩ := h.file
      exact ⟨d, hfile.trans hd, hd'.trans hcore.symm⟩
    · exact ⟨_, hfile, rfl⟩
  | identity _ hs => exact hsaved hs
  | created _ _ _ _ _ _ _ hs => exact hsaved hs
  | renamed _ _ _ hs => exact hsaved hs
  | set _ _ _ _ _ hs => exact hsaved hs
  | deleted _ _ hfile _ _ => exact ⟨_, hfile, rfl⟩

theorem valid (h : Inv A s) : ∀ c ∈ s.awgConfig, c.validate = none := fun c hc =>
  (h.config c hc).2

/-- A call keeps the invariant. -/
theorem call (h : Inv A s) {x : Certs} {c : Call} (ha : c.Assumed A s) :
    Inv A (c.apply x s).2.2 := by
  have heff := Call.effect ha h.state.id h.valid x
  refine ⟨fun c' hc' => ?_, h.state_of_effect heff, h.file_of_effect heff⟩
  obtain hsame | ⟨c'', seed, err, rfl, hvalid, hset⟩ := Call.awgConfig_apply x c s
  · exact h.config c' (hsame ▸ hc')
  · obtain rfl : c'' = c' := Option.some.inj (hset.symm.trans hc')
    exact ⟨ha c'' rfl, hvalid⟩

/-- The invariant does not depend on sessions. -/
theorem of_same (h : Inv A s) (hconfig : s'.awgConfig = s.awgConfig)
    (hstate : s'.state = s.state) (hfile : s'.file = s.file) : Inv A s' :=
  ⟨fun c hc => h.config c (hconfig ▸ hc), hstate ▸ h.state, by rw [hfile, hstate]; exact h.file⟩

/-- A store that was just opened satisfies the invariant, if its file does. -/
theorem opened {env : Store.OpenEnv} {file : Option DiskState}
    (hfile : ∀ d, file = some d → StateInv A d) (hopen : Store.openStore env file = .ok s) :
    Inv A s := by
  obtain ⟨d, notAfter, rfl, hd⟩ := openStore_ok hopen
  refine ⟨fun c hc => (nomatch hc), ?_, d, rfl, rfl⟩
  obtain hd | ⟨_, hawg, hversion, husers⟩ := hd
  · exact hfile d hd
  · have hnone : ∀ (id : Bytes) (u : User), d.users.lookup id = some u → False := by
      intro id u hu
      rw [husers, Finmap.lookup_empty] at hu
      cases hu
    refine ⟨hversion, fun id u hu => (hnone id u hu).elim, ?_, fun id u hu => (hnone id u hu).elim,
      fun i j u v t hu => (hnone i u hu).elim, fun id u hu => (hnone id u hu).elim,
      fun id u hu => (hnone id u hu).elim, fun id u p hu => (hnone id u hu).elim,
      fun i j u v t hu => (hnone i u hu).elim, fun _ i j u v t hu => (hnone i u hu).elim,
      fun i hi => ?_⟩
    · rw [Store.opened, husers]
      exact Nat.zero_le _
    · rw [Store.opened, hawg] at hi
      cases hi

end Inv

/-! ## Runs -/

/-- The invariant of a server, running or stopped. -/
def Process.Inv (A : Assumptions) : Process → Prop
  | .stopped file => ∀ d, file = some d → StateInv A d
  | .running s => Admin.Inv A s

variable {A : Assumptions}

theorem Server.Step.inv {x : Certs} {v v' : Server} {a : Action} (h : v.process.Inv A)
    (hs : Server.Step x A v a v') : v'.process.Inv A := by
  cases hs with
  | «open» hstopped hopen =>
    rw [hstopped] at h
    exact Admin.Inv.opened h hopen
  | stop hrun =>
    rw [hrun] at h
    intro d hd
    obtain ⟨d', hd', hcore⟩ := h.file
    obtain rfl : d' = d := Option.some.inj (hd'.symm.trans hd)
    exact h.state.congr hcore.symm
  | @call s s' c e r hrun hassumed hresult =>
    rw [hrun] at h
    have hcall := Admin.Inv.call (x := x) h hassumed
    rwa [hresult] at hcall
  | register hrun _ hok =>
    rw [hrun] at h
    obtain ⟨_, _, rfl⟩ := registerProtocol_ok hok
    exact Admin.Inv.of_same h rfl rfl rfl
  | release hrun _ =>
    rw [hrun] at h
    exact Admin.Inv.of_same h rfl rfl rfl
  | close _ _ => exact h

/-- A running store satisfies the invariant, whatever was called before. -/
theorem inv_of_reachable {x : Certs} {v : Server} (h : (Server.system x A).Reachable v) {s : Store}
    (hs : v.process = .running s) :
    Inv A s := by
  have hinv := h.invariant (P := fun v => v.process.Inv A)
    (fun v hv => by rw [show v = Server.initial from hv]; exact fun d hd => nomatch hd)
    fun _ _ _ hv hstep => Server.Step.inv hv hstep
  rw [hs] at hinv
  exact hinv

/-! ### A first run

A server is opened, AWG is configured, and a user is created with AWG. -/

/-- Certificates are not encoded. -/
def sampleCerts : Certs := ⟨fun _ b => b, some, id⟩

/-- The calls of the run. -/
def sampleCalls : List Call :=
  [.configureAWG (some sampleConfig) (.ok ⟨sampleKey 1, sampleKey 2, [5, 6, 7, 8], rfl⟩) none,
    .create ⟨none, none, 0, str "id", .ok ⟨sampleKey 3, sampleKey 4, sampleKey 5⟩, .ok [1], .ok [2],
      none⟩ (str "Ann") (some [str "awg"])]

/-- The store after the calls given, from an empty one. -/
def sampleStore (calls : List Call) : Store :=
  calls.foldl (fun s c => (c.apply sampleCerts s).2.2)
    ((Store.opened none ⟨none, 1, [], [], ∅⟩ 1).save none).2

/-- The server after the calls given. -/
def sampleServer (calls : List Call) : Server := ⟨.running (sampleStore calls), [], [], [], []⟩

theorem sampleServer_opened :
    (Server.system sampleCerts A).Reachable (sampleServer []) := by
  have hinit : (Server.system sampleCerts A).Reachable Server.initial := .init rfl
  have hopen : Store.openStore ⟨none, .ok 1, [], [], none⟩ none = .ok (sampleStore []) := rfl
  exact hinit.step (.open rfl hopen)

theorem sampleServer_created : (Server.system sampleCerts (.fixed (some sampleConfig))).step
    (sampleServer (sampleCalls.take 1)) (.call (sampleCalls.get ⟨1, by decide⟩))
    (sampleServer sampleCalls) := by
  have hfresh : (sampleCalls.get ⟨1, by decide⟩).Assumed (.fixed (some sampleConfig))
      (sampleStore (sampleCalls.take 1)) := ⟨rfl, fun _ _ _ _ _ _ hu => nomatch hu⟩
  exact .call rfl hfresh rfl

theorem sampleServer_reachable : (Server.system sampleCerts (.fixed (some sampleConfig))).Reachable
    (sampleServer sampleCalls) := by
  have h₁ : (Server.system sampleCerts (.fixed (some sampleConfig))).Reachable
      (sampleServer (sampleCalls.take 1)) :=
    sampleServer_opened.step
      (.call (c := sampleCalls.get ⟨0, by decide⟩) rfl (fun _ hc => hc) rfl)
  exact h₁.step sampleServer_created

/-! ### Results -/

/-- The representation of a running store: users are under their ids, at most 1000,
    with distinct names of 1 to 100 bytes, valid protocols, and the peers they
    need, at distinct hosts of the configured network. Provisioning gives up only
    when every such host is held by a user. -/
theorem store_invariant {x : Certs} {cfg : Option Config} {v : Server}
    (h : (Server.system x (.fixed cfg)).Reachable v) {s : Store} (hs : v.process = .running s) :
    StateInv (.fixed cfg) s.state ∧
      ∀ seed u, s.provisionAWG seed u = .error (.new "AWG address pool exhausted") →
        ∃ c network, cfg = some c ∧ parsePrefix c.address = some network ∧
          ∀ a, Host network a → Held s.state.users (Addr.v4 a).string := by
  have hinv := inv_of_reachable h hs
  refine ⟨hinv.state, fun seed u hfull => ?_⟩
  obtain ⟨c, network, hc, hparse, hall⟩ := provisionAWG_exhausted hinv.valid hfull
  exact ⟨c, network, (hinv.config c hc).1, hparse, hall⟩

/-- The first user is given the first host that is free. -/
theorem store_invariant_first : ∃ u p,
    (sampleStore sampleCalls).state.users.lookup (str "id") = some u ∧ u.awg = some p ∧
      p.address = str "10.8.0.2" ∧
        StateInv (.fixed (some sampleConfig)) (sampleStore sampleCalls).state := by
  exact ⟨_, _, rfl, rfl, by decide, (store_invariant sampleServer_reachable rfl).1⟩

/-- Calls are atomic, and memory agrees with the file. A call that returns an error
    leaves the users, the identity and the sessions as they were, and has no
    session closed. After any calls, the file holds the state in memory but for
    last connections. -/
theorem call_atomic {x : Certs} {A : Assumptions} {v : Server}
    (h : (Server.system x A).Reachable v) {s : Store} (hs : v.process = .running s) :
    (∀ (c : Call) e r s', c.Assumed A s → c.apply x s = (some e, r, s') →
      s'.state.users = s.state.users ∧ s'.state.awg = s.state.awg ∧ r = none ∧
        s'.active = s.active ∧ s'.sessionProtocols = s.sessionProtocols) ∧
      ∃ d, s.file = some d ∧ d.core = s.state.core := by
  have hinv := inv_of_reachable h hs
  refine ⟨fun c e r s' ha hr => ?_, hinv.file⟩
  have heff := Call.effect ha hinv.state.id hinv.valid x
  rw [hr] at heff
  cases heff with
  | failed hk => exact ⟨by rw [hk.state], by rw [hk.state], rfl, hk.active, hk.protocols⟩

/-- Renaming an unknown user fails. -/
theorem call_atomic_rename : ∃ e r s',
    (Call.rename (str "nobody") (str "Ben") none).apply sampleCerts (sampleStore sampleCalls) =
      (some e, r, s') ∧ s'.state.users = (sampleStore sampleCalls).state.users := by
  have hr : (Call.rename (str "nobody") (str "Ben") none).apply sampleCerts
    (sampleStore sampleCalls) = (some _, _, _) := rfl
  exact ⟨_, _, _, hr,
    ((call_atomic sampleServer_reachable rfl).1 (.rename _ _ _) _ _ _ trivial hr).1⟩

end QuicLab.Admin
