import QuicLab.Admin.Invariant

/-!
# Disabling users

The `toggle` of the admin pages disables a user by a `SetProtocols` with the
protocols it has, so by the path that provisions AWG peers. The protocols of a
user are always accepted, and one that has AWG has a peer already; but without a
configuration of AWG, as after a restart without one, that path fails before it
looks at the peer.

* `disable_iff`: a user of a running store can be disabled if and only if it has
  no AWG, or AWG is configured.
-/

namespace QuicLab.Admin

open Go
open AwgServer (PeerSeed sampleConfig sampleKey)

/-- The protocols `toggle` sets: those of the user, or the default ones. -/
def User.toggled (u : User) : List Bytes := u.protocols.getD [str "quic", str "https"]

/-- `toggle` disables the user: its `SetProtocols` succeeds if it can be saved, and
    then the user is disabled and every certificate with its id is rejected. -/
def Store.Disables (x : Certs) (seed : Except String PeerSeed) (id : Bytes) (u : User)
    (s : Store) : Prop :=
  ∃ closers s', s.setProtocols id u.toggled true seed none = (.ok closers, s') ∧
    (∃ u', s'.state.users.lookup id = some u' ∧ u'.disabled = true) ∧
    ∀ cs now, (∃ cert ∈ cs.peerCertificates.head?, cert.commonName = id) →
      ∃ e, s'.allowed x cs now = .error e

variable {s : Store} {id : Bytes} {u : User}

/-- Valid protocols are accepted. -/
theorem checkProtocols_of_valid {ps : List Bytes} (h : ValidProtocols (some ps)) :
    Store.checkProtocols (some ps) = none := by
  obtain ⟨hne, hnodup, hps⟩ := h ps rfl
  have hsub : ps ⊆ [str "quic", str "https", str "awg"] := fun p hp => by
    simpa using hps p hp
  have hlen : ps.length ≤ 3 := (hnodup.subperm hsub).length_le
  have hpos : ps.length ≠ 0 := fun hzero => hne (List.length_eq_zero_iff.1 hzero)
  rw [Store.checkProtocols, if_neg (by omega), if_pos ⟨hnodup, hps⟩]

theorem valid_toggled (h : ValidProtocols u.protocols) : ValidProtocols (some u.toggled) := by
  rw [User.toggled]
  cases hps : u.protocols with
  | none =>
    intro ps hps
    cases hps
    decide
  | some ps =>
    rw [hps] at h
    exact h

/-- What `toggle` sets allows AWG only if the user had it. -/
theorem enabled_toggled (u : User) :
    AwgServer.enabled (some u.toggled) (str "awg") = u.allows (str "awg") := by
  rw [User.toggled, User.allows]
  cases u.protocols with
  | none => decide
  | some ps => rfl

/-- A disabled user is rejected. -/
theorem allowed_of_disabled (hu : s.state.users.lookup id = some u) (hdis : u.disabled = true)
    {cs : ConnectionState} (hcs : ∃ cert ∈ cs.peerCertificates.head?, cert.commonName = id)
    (x : Certs) (now : Time) : ∃ e, s.allowed x cs now = .error e := by
  obtain ⟨cert, hcert, rfl⟩ := hcs
  rw [Store.allowed]
  split
  · rename_i c _ _ hcerts
    rw [hcerts] at hcert
    cases hcert
    rw [hu]
    exact ⟨_, if_pos (.inl hdis)⟩
  · exact ⟨_, rfl⟩

/-- Disabling succeeds once the user passes `provisionAWG`. -/
theorem disables_of_provision (hu : s.state.users.lookup id = some u)
    {seed : Except String PeerSeed}
    (hok : s.provisionAWG seed { u with protocols := some u.toggled, disabled := true } =
      .ok { u with protocols := some u.toggled, disabled := true }) (x : Certs) :
    s.Disables x seed id u := by
  have hset : ∃ closers s', s.setProtocols id u.toggled true seed none = (.ok closers, s') ∧
      s'.state.users = s.state.users.insert id
        { u with protocols := some u.toggled, disabled := true } := by
    rw [Store.setProtocols, hu]
    simp only [hok]
    exact ⟨_, _, rfl, rfl⟩
  obtain ⟨closers, s', hs', husers⟩ := hset
  have hu' : s'.state.users.lookup id =
      some { u with protocols := some u.toggled, disabled := true } := by
    rw [husers, Finmap.lookup_insert]
  exact ⟨closers, s', hs', ⟨_, hu', rfl⟩, fun cs now hcs => allowed_of_disabled hu' rfl hcs x now⟩

/-! ### A restart without AWG

A user with QUIC and AWG is created; then the server is started again, and its
configuration has no AWG. -/

namespace Sample

/-- The calls of the first run. -/
def calls : List Call :=
  sampleCalls.take 1 ++
    [.create ⟨none, none, 0, str "id", .ok ⟨sampleKey 3, sampleKey 4, sampleKey 5⟩, .ok [1], .ok [2],
      none⟩ (str "Ann") (some [str "quic", str "awg"])]

/-- The server after the restart. -/
def restarted : Server :=
  ⟨.running (Store.opened (sampleStore calls).file (sampleStore calls).state 1), [], [], [], []⟩

theorem calls_reachable : (Server.system sampleCerts (.fixed (some sampleConfig))).Reachable
    (sampleServer calls) := by
  have hconfigure : (Server.system sampleCerts (.fixed (some sampleConfig))).Reachable
      (sampleServer (calls.take 1)) :=
    sampleServer_opened.step (.call (c := calls.get ⟨0, by decide⟩) rfl (fun _ hc => hc) rfl)
  have hfresh : (calls.get ⟨1, by decide⟩).Assumed (.fixed (some sampleConfig))
      (sampleStore (calls.take 1)) := ⟨rfl, fun _ _ _ _ _ _ hu => by cases hu⟩
  exact hconfigure.step (.call rfl hfresh rfl)

theorem restarted_reachable :
    (Server.system sampleCerts (.fixed (some sampleConfig))).Reachable restarted := by
  have hopen : Store.openStore ⟨none, .ok 1, [], [], none⟩ (sampleStore calls).file =
      .ok (Store.opened (sampleStore calls).file (sampleStore calls).state 1) := rfl
  have hopened := (calls_reachable.step (.stop rfl)).step (.open rfl hopen)
  exact hopened.step (.call (c := .configureAWG none (.error "") none) rfl
    (fun _ hc => by cases hc) rfl)

end Sample

/-- After the restart the user cannot be disabled, and is still let in. -/
theorem disable_fails_unconfigured :
    (Server.system sampleCerts (.fixed (some sampleConfig))).Reachable Sample.restarted ∧
    ∃ s u, Sample.restarted.process = .running s ∧ s.state.users.lookup (str "id") = some u ∧
      (∀ seed, (s.setProtocols (str "id") u.toggled true seed none).1 =
        .error (.new "AWG server is not configured")) ∧
      ∀ seed, (s.setProtocols (str "id") u.toggled true seed none).2.allowed sampleCerts
        ⟨true, [⟨str "id", [1]⟩]⟩ 0 = .ok (str "id") :=
  ⟨Sample.restarted_reachable, _, _, rfl, rfl, fun _ => rfl, fun _ => rfl⟩

/-- Disabling a user. In every running store, whatever was called before, `toggle`
    disables a user if and only if the user has no AWG or AWG is configured. -/
theorem disable_iff {x : Certs} {A : Assumptions} {v : Server}
    (h : (Server.system x A).Reachable v) (hs : v.process = .running s)
    (hu : s.state.users.lookup id = some u) (seed : Except String PeerSeed) :
    s.Disables x seed id u ↔ (u.allows (str "awg") = true → s.awgConfig.isSome = true) := by
  have hinv := (inv_of_reachable h hs).state
  have hcheck := checkProtocols_of_valid (valid_toggled (hinv.protocols id u hu))
  have hallows : ∀ d, User.allows { u with protocols := some u.toggled, disabled := d }
    (str "awg") = u.allows (str "awg") := fun _ => enabled_toggled u
  by_cases hawg : u.allows (str "awg") = true
  · -- The user has a peer, and so there is an identity.
    have hpeer := hinv.hasPeer id u hu hawg
    obtain ⟨p, hp⟩ := Option.isSome_iff_exists.1 hpeer
    obtain ⟨i, hi⟩ := Option.isSome_iff_exists.1 (hinv.peer id u p hu hp).2
    cases hconfig : s.awgConfig with
    | none =>
      refine ⟨fun hdis => ?_, fun hsome => by cases hsome hawg⟩
      obtain ⟨closers, s', hset, -⟩ := hdis
      rw [Store.setProtocols, hu] at hset
      simp only [Store.provisionAWG, hcheck, hallows, hawg, hconfig, not_true_eq_false,
        if_false] at hset
      cases hset
    | some c =>
      refine ⟨fun _ _ => rfl, fun _ => disables_of_provision hu ?_ x⟩
      simp only [Store.provisionAWG, hcheck, hallows, hawg, hconfig, hi, hpeer, not_true_eq_false,
        if_false, if_true]
  · refine ⟨fun _ hawg' => absurd hawg' hawg, fun _ => disables_of_provision hu ?_ x⟩
    simp only [Store.provisionAWG, hcheck, hallows, hawg, Bool.false_eq_true, not_false_eq_true,
      if_true]

/-- Before the restart the user can be disabled. -/
theorem disable_iff_configured : ∃ u,
    (sampleStore Sample.calls).state.users.lookup (str "id") = some u ∧
      (sampleStore Sample.calls).Disables sampleCerts (.error "") (str "id") u :=
  ⟨_, rfl, (disable_iff Sample.calls_reachable rfl rfl _).2 fun _ => rfl⟩

end QuicLab.Admin
