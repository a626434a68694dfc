import QuicLab.Admin.Invariant
import QuicLab.AwgServer.Reconcile

/-!
# The states the admin server hands to the worker

The admin server writes the identity store, and the AWG worker reads it: one
allocates addresses and keys, and the other checks them by itself. One user that is
refused makes the worker give up on all of them.

The main result is that this does not happen (`handoff_accepted`): once AWG was
configured, the worker accepts whatever the admin server has written, at any time
and in any order of the users, as both have the same configuration. The worker
accepts the hosts of its network (`validPeerAddress_iff`), and those are what the
invariant of the store says the users have.
-/

namespace QuicLab.Admin

open Go Netip
open AwgServer (Config Identity IdentitySeed Peer Host Key Accepted Worker Device ApplyEnv
  enabledPeers sampleConfig sampleDevice)

/-! ## The file, as the worker reads it -/

/-- The fields of a user that the worker reads. -/
def User.forWorker (u : User) : AwgServer.User := ⟨u.id, u.disabled, u.protocols, u.expires, u.awg⟩

/-- The content of `identities.json`, read as an `awgserver.State`. -/
def DiskState.forWorker (d : DiskState) : AwgServer.State :=
  ⟨d.awg, d.users.mapVals User.forWorker⟩

/-- The file of a server, running or stopped. -/
def Process.file : Process → Option DiskState
  | .stopped file => file
  | .running s => s.file

theorem lookup_forWorker {d : DiskState} {id : Bytes} {u : AwgServer.User}
    (h : d.forWorker.users.lookup id = some u) :
    ∃ v, d.users.lookup id = some v ∧ v.awg = u.awg := by
  rw [DiskState.forWorker, Map.lookup_mapVals, Option.map_eq_some_iff] at h
  obtain ⟨v, hv, rfl⟩ := h
  exact ⟨v, hv, rfl⟩

/-- What the admin server keeps about its users passes the checks of the worker. -/
theorem StateInv.accepted {c : Config} {network : Prefix} {server : BitVec 32} {d : DiskState}
    (h : StateInv (.fixed (some c)) d) (hnetwork : parsePrefix c.address = some network)
    (hserver : network.addr = .v4 server) {users : List (Bytes × AwgServer.User)}
    (husers : Map.IsRange users d.forWorker.users) (now : Time) :
    Accepted (some network) [] ∅ (enabledPeers now users) := by
  -- An enabled peer is that of a user of the admin server.
  have huser : ∀ e ∈ users, ∀ p, e.2.enabledPeer now = some p →
      ∃ u, d.users.lookup e.1 = some u ∧ u.awg = some p := by
    intro e he p hp
    obtain ⟨u, hu, hawg⟩ := lookup_forWorker (husers.mem_iff.1 he)
    exact ⟨u, hu, hawg.trans (AwgServer.enabledPeer_eq_some.1 hp).2⟩
  have hpeer : ∀ p ∈ enabledPeers now users, PeerOK (.fixed (some c)) p := by
    intro p hp
    obtain ⟨e, he, hep⟩ := List.mem_filterMap.1 hp
    obtain ⟨u, hu, hawg⟩ := huser e he p hep
    exact (h.peer e.1 u p hu hawg).1
  -- What differs between users differs between their peers.
  have hpairwise : ∀ R : Peer → Peer → Prop,
      (∀ i j u v p q, d.users.lookup i = some u → d.users.lookup j = some v → u.awg = some p →
        v.awg = some q → i ≠ j → R p q) → (enabledPeers now users).Pairwise R := by
    intro R hR
    refine List.pairwise_filterMap.2 ?_
    refine (List.pairwise_map.1 husers.nodup_keys).imp_of_mem fun he he' hne p hp q hq => ?_
    obtain ⟨u, hu, hup⟩ := huser _ he p hp
    obtain ⟨v, hv, hvq⟩ := huser _ he' q hq
    exact hR _ _ u v p q hu hv hup hvq hne
  refine ⟨fun p hp => ⟨?_, List.not_mem_nil⟩, fun p hp => ?_, ?_, ?_⟩
  · obtain ⟨c', network', a, hc, _, hparse, hhost, haddr⟩ := (hpeer p hp).address
    obtain rfl : c = c' := Option.some.inj hc
    obtain rfl : network = network' := Option.some.inj (hnetwork.symm.trans hparse)
    exact (AwgServer.validPeerAddress_iff hserver p.address).2 ⟨a, haddr, hhost⟩
  · obtain ⟨pub, psk, hpub, hpsk⟩ := (hpeer p hp).keys
    refine ⟨hexEncode pub, hexEncode psk, ?_, ?_, rfl⟩
    · rw [hpub, AwgServer.keyHex_encode]
    · rw [hpsk, AwgServer.keyHex_encode]
  · refine hpairwise _ fun i j u v p q hu hv hp hq hne heq => hne ?_
    exact h.addresses i j u v p.address hu hv (Option.map_eq_some_iff.2 ⟨p, hp, rfl⟩)
      (Option.map_eq_some_iff.2 ⟨q, hq, heq.symm⟩)
  · refine hpairwise _ fun i j u v p q hu hv hp hq hne heq => hne ?_
    obtain ⟨pub, _, hpub, _⟩ := (h.peer i u p hu hp).1.keys
    obtain ⟨pub', _, hpub', _⟩ := (h.peer j v q hv hq).1.keys
    rw [hpub, hpub', AwgServer.keyHex_encode, AwgServer.keyHex_encode] at heq
    have hkey : p.publicKey = q.publicKey := by
      rw [hpub, hpub', hexEncode_injective (Except.ok.inj heq)]
    exact h.keys trivial i j u v p.publicKey hu hv (Option.map_eq_some_iff.2 ⟨p, hp, rfl⟩)
      (Option.map_eq_some_iff.2 ⟨q, hq, hkey.symm⟩)

/-! ## The identity of the server -/

/-- The identity of a server, running or stopped. -/
def Process.identity : Process → Option Identity
  | .stopped file => file.bind DiskState.awg
  | .running s => s.state.awg

variable {i : Identity} {A : Assumptions}

/-- A call keeps the identity. -/
theorem Effect.identity_kept {s s' : Store} {e : Option Error} {r : Option Request}
    (h : Effect A s (e, r, s')) (hi : s.state.awg = some i) :
    s'.state.awg = some i := by
  cases h with
  | failed hk => rw [hk.state, hi]
  | noted _ hcore _ => exact ((congrArg DiskState.awg hcore :).trans hi)
  | identity hunset _ =>
    rw [hi] at hunset
    cases hunset
  | created _ _ _ _ _ _ _ hs =>
    rw [hs.state]
    exact hi
  | renamed _ _ _ hs =>
    rw [hs.state]
    exact hi
  | set _ _ _ _ _ hs =>
    rw [hs.state]
    exact hi
  | deleted _ hstate _ _ _ =>
    rw [hstate]
    exact hi

/-- The file has the identity in memory. -/
theorem Process.Inv.file {p : Process} (h : p.Inv A) (hi : p.identity = some i) :
    ∃ d, p.file = some d ∧ d.awg = some i ∧ StateInv A d := by
  cases p with
  | stopped file =>
    obtain ⟨d, hd, hawg⟩ := Option.bind_eq_some_iff.1 hi
    exact ⟨d, hd, hawg, h d hd⟩
  | running s =>
    obtain ⟨d, hd, hcore⟩ := Admin.Inv.file h
    refine ⟨d, hd, (congrArg DiskState.awg hcore :).trans hi, ?_⟩
    exact (Admin.Inv.state h).congr hcore.symm

/-- The identity never changes, over restarts either. -/
theorem Server.Step.identity {x : Certs} {v v' : Server} {a : Action} (h : v.process.Inv A)
    (hi : v.process.identity = some i) (hs : Server.Step x A v a v') :
    v'.process.identity = some i := by
  cases hs with
  | «open» hstopped hopen =>
    rw [hstopped] at hi
    obtain ⟨d, notAfter, rfl, hd | ⟨rfl, _⟩⟩ := openStore_ok hopen
    · rw [hd] at hi
      exact hi
    · cases hi
  | stop hrun =>
    obtain ⟨d, hd, hawg, _⟩ := h.file hi
    rw [hrun] at hd
    exact Option.bind_eq_some_iff.2 ⟨d, hd, hawg⟩
  | @call s s' c e r hrun hassumed hresult =>
    rw [hrun] at h hi
    have heff := Call.effect hassumed (Admin.Inv.state h).id (Admin.Inv.valid h) x
    rw [hresult] at heff
    exact heff.identity_kept hi
  | register hrun _ hok =>
    rw [hrun] at hi
    obtain ⟨_, _, rfl⟩ := registerProtocol_ok hok
    exact hi
  | release hrun _ =>
    rw [hrun] at hi
    exact hi
  | close _ _ => exact hi

/-! ## The worker -/

/-- The errors of the device, which are not about the state. -/
def deviceErrors : List Error :=
  [.new "AWG device configuration rejected", .new "cannot revoke AWG peer",
    .new "cannot apply AWG peer"]

/-- A worker that has the identity, or none yet, only fails to take it on the device. -/
theorem identify_error {D : Type*} {dev : Device D} {w w' : Worker D}
    (hid : w.identity = [] ∨ w.identity = i.privateKey) {key : Bytes}
    (hkey : AwgServer.keyHex i.privateKey = .ok key) {e : Option Error}
    (h : w.identify dev i = (e, w')) :
    w'.config = w.config ∧ ∀ err ∈ e, err ∈ deviceErrors := by
  rw [Worker.identify, hkey] at h
  split_ifs at h with hnew hchanged
  · cases hset :
        dev.ipcSet (AwgServer.serverText key (itoa w.config.port) i.parameters) w.device with
    | mk ok d =>
      simp only [AwgServer.Worker.ipcSet_eq hset] at h
      cases ok with
      | false =>
        cases h
        exact ⟨rfl, fun err herr => Option.some.inj herr ▸ List.mem_cons_self⟩
      | true =>
        cases h
        exact ⟨rfl, fun err herr => absurd herr (Option.not_mem_none err)⟩
  · exact absurd (hid.resolve_left hnew) hchanged
  · cases h
    exact ⟨rfl, fun err herr => absurd herr (Option.not_mem_none err)⟩

/-- An `Apply` of what passes the checks can only fail on the device. -/
theorem apply_accepted {D : Type*} {dev : Device D} {w : Worker D} {env : ApplyEnv}
    {state : AwgServer.State} (hi : state.awg = some i)
    (hid : w.identity = [] ∨ w.identity = i.privateKey) {key : Bytes}
    (hkey : AwgServer.keyHex i.privateKey = .ok key)
    (hacc : Accepted (parsePrefix w.config.address) [] ∅ (enabledPeers env.now env.users)) :
    ∀ e ∈ (w.apply dev env state).1, e ∈ deviceErrors := by
  obtain ⟨hstart, hstartid⟩ := AwgServer.Worker.start_kept dev env.started w
  intro e he
  rw [Worker.apply, hi] at he
  cases hidentify : (w.start env.started).identify dev i with
  | mk err w₀ =>
    obtain ⟨hconfig, herr⟩ := identify_error (hstartid.symm ▸ hid) hkey hidentify
    simp only [hidentify] at he
    cases err with
    | some err => exact herr e he
    | none =>
      obtain ⟨desired, hcheck⟩ := AwgServer.checkUsers_isOk hacc
      simp only [hconfig, hstart.config, hcheck] at he
      split at he
      · rename_i err w₁ hrevoke
        rw [← Option.some.inj he, AwgServer.Worker.revoke_error hrevoke]
        decide
      · rw [AwgServer.Worker.install_error (Prod.ext he rfl)]
        decide

theorem configureAWG_ok {s s' : Store} {c : Config} {seed : Except String IdentitySeed}
    {err : Option String} (h : s.configureAWG (some c) seed err = (none, s')) :
    c.validate = none ∧ ∃ i, s'.state.awg = some i := by
  unfold Store.configureAWG at h
  simp only at h
  split at h
  · cases h
  · rename_i hvalid
    refine ⟨hvalid, ?_⟩
    split_ifs at h with hsome
    · cases h
      exact Option.isSome_iff_exists.1 hsome
    · split at h
      · cases h
      · rename_i i _
        cases err with
        | some e => cases h
        | none =>
          cases h
          exact ⟨i, rfl⟩

/-- The worker accepts what the admin server writes. After AWG was configured with the
    configuration of the worker, whatever the admin server is asked to do, with saves
    failing and restarts, its file has one and the same identity, and a worker, new or
    with that identity, that applies the file at any time and in any order of the users
    fails only if its device does. -/
theorem handoff_accepted {x : Certs} {c : Config} {v v' : Server}
    (h : (Server.system x (.fixed (some c))).Reachable v) {s s₁ : Store}
    (hs : v.process = .running s) {seed : Except String IdentitySeed} {err : Option String}
    (hconfigure : s.configureAWG (some c) seed err = (none, s₁))
    (hlater : (Server.system x (.fixed (some c))).Leads { v with process := .running s₁ } v') :
    ∃ i d, s₁.state.awg = some i ∧ v'.process.file = some d ∧ d.awg = some i ∧
      ∀ {D : Type} (dev : Device D) (w : Worker D) (env : ApplyEnv), w.config = c →
        (w.identity = [] ∨ w.identity = i.privateKey) →
        Map.IsRange env.users d.forWorker.users →
          ∀ e ∈ (w.apply dev env d.forWorker).1, e ∈ deviceErrors := by
  obtain ⟨hc, i, hi⟩ := configureAWG_ok hconfigure
  have hinv : Inv (.fixed (some c)) s₁ := by
    have hcall := (inv_of_reachable h hs).call (x := x)
      (c := .configureAWG (some c) seed err) fun _ hc => hc
    rwa [Call.apply, hconfigure] at hcall
  -- The invariant of the store and the identity hold from then on.
  obtain ⟨hinv', hi'⟩ := hlater.invariant
    (P := fun v => v.process.Inv (.fixed (some c)) ∧ v.process.identity = some i)
    (fun _ _ _ hv hstep => ⟨Server.Step.inv hv.1 hstep, Server.Step.identity hv.1 hv.2 hstep⟩)
    ⟨hinv, hi⟩
  obtain ⟨d, hd, hawg, hstate⟩ := hinv'.file hi'
  refine ⟨i, d, hi, hd, hawg, fun dev w env hconfig hid hrange => ?_⟩
  obtain ⟨network, server, hnetwork, hserver, _⟩ := AwgServer.Config.network_of_validate hc
  obtain ⟨key, hkey⟩ := hstate.identity i hawg
  refine apply_accepted hawg hid (hkey ▸ AwgServer.keyHex_encode key) ?_
  rw [hconfig, hnetwork]
  exact hstate.accepted hnetwork hserver hrange env.now

/-- A new worker accepts the store with the first user. -/
theorem handoff_accepted_first : ∃ d, (sampleServer sampleCalls).process.file = some d ∧
    ∀ env : ApplyEnv, Map.IsRange env.users d.forWorker.users →
      ∀ e ∈ ((Worker.initial sampleConfig ∅).apply sampleDevice env d.forWorker).1,
        e ∈ deviceErrors := by
  have hconfigure : (sampleStore []).configureAWG (some sampleConfig)
    (.ok ⟨AwgServer.sampleKey 1, AwgServer.sampleKey 2, [5, 6, 7, 8], rfl⟩) none = (none, _) := rfl
  obtain ⟨i, d, _, hd, _, hworker⟩ := handoff_accepted sampleServer_opened rfl hconfigure
    (.single ⟨_, sampleServer_created⟩)
  exact ⟨d, hd, fun env => hworker sampleDevice _ env rfl (.inl rfl)⟩

end QuicLab.Admin
