import QuicLab.Admin.Store
import QuicLab.AwgServer.Pool

/-!
# Provisioning AWG peers

What `provisionAWG` does, for a valid configuration: it accepts the protocols of
a user, and gives a user that is to have a peer and has none a host of the
network that no other peer has (`Provisioned`). It gives up only when all hosts
are taken (`provisionAWG_exhausted`).
-/

namespace QuicLab.Admin

open Go Netip
open AwgServer (Config Identity Peer PeerSeed IdentitySeed Host)

/-! ## The loop -/

section Loop

variable {network : Prefix} {server : BitVec 32} {used : Bytes → Bool}

/-- Before the last address of the network, the loop goes on with the next one. -/
theorem freeAddress_succ (used : Bytes → Bool) (h : network.addr = .v4 server) {a : BitVec 32}
    (hfirst : Prefix.first server network.bits < a.toNat)
    (hlast : a.toNat < Prefix.last server network.bits) (k : ℕ) :
    (a + 1).toNat = a.toNat + 1 ∧ Store.freeAddress network used (k + 1) (.v4 a) =
      if ¬ used (Addr.v4 a).string then some (Addr.v4 a).string
      else Store.freeAddress network used k (.v4 (a + 1)) := by
  have hc := (Prefix.contains_v4 h a).2 ⟨hfirst.le, hlast.le⟩
  have hnext := (Prefix.contains_next_v4 h hc).2 hlast.ne
  have hbits : network.bits ≤ 32 := by
    have := network.bits_le
    rwa [h] at this
  have hsucc : a.toNat + 1 < 2 ^ 32 := by
    have := Prefix.last_lt server hbits
    omega
  have hne : a ≠ BitVec.allOnes 32 := fun hall => by
    rw [hall] at hsucc
    exact absurd hsucc (by decide)
  rw [Addr.next, if_neg hne, Option.any_some] at hnext
  refine ⟨?_, ?_⟩
  · rw [BitVec.toNat_add]
    exact Nat.mod_eq_of_lt hsucc
  · rw [Store.freeAddress, Addr.next, if_neg hne]
    simp only [hnext, not_true_eq_false, if_false]

/-- The loop ends at the last address. -/
theorem freeAddress_last (h : network.addr = .v4 server) {a : BitVec 32}
    (hlast : a.toNat = Prefix.last server network.bits) (k : ℕ) :
    Store.freeAddress network used k (.v4 a) = none := by
  cases k with
  | zero => rfl
  | succ k =>
    have hc := (Prefix.contains_v4 h a).2
      ⟨by rw [hlast, Prefix.last]; have := Nat.two_pow_pos (32 - network.bits); omega, hlast.le⟩
    have hnext : ¬ (Addr.v4 a).next.any network.contains = true := fun hany =>
      (Prefix.contains_next_v4 h hc).1 hany hlast
    rw [Store.freeAddress]
    cases hn : (Addr.v4 a).next with
    | none => rfl
    | some next =>
      rw [hn, Option.any_some] at hnext
      simp only [hnext, Bool.false_eq_true, not_false_eq_true, if_true]

/-- The address the loop finds is between the first and the last one, and free. -/
theorem freeAddress_some (h : network.addr = .v4 server) {k : ℕ} {a : BitVec 32} {t : Bytes}
    (hfirst : Prefix.first server network.bits < a.toNat)
    (hlast : a.toNat ≤ Prefix.last server network.bits)
    (ht : Store.freeAddress network used k (.v4 a) = some t) :
    ∃ b : BitVec 32, t = (Addr.v4 b).string ∧ Prefix.first server network.bits < b.toNat ∧
      b.toNat < Prefix.last server network.bits ∧ used t = false := by
  induction k generalizing a with
  | zero => cases ht
  | succ k ih =>
    rcases hlast.eq_or_lt with heq | hlt
    · rw [freeAddress_last h heq] at ht
      cases ht
    · obtain ⟨hsucc, hloop⟩ := freeAddress_succ used h hfirst hlt k
      rw [hloop] at ht
      split_ifs at ht with hused
      · exact ih (by omega) (by omega) ht
      · cases ht
        exact ⟨a, rfl, hfirst, hlt, by simpa using hused⟩

/-- The loop finds nothing only if all addresses before the last one are used. -/
theorem freeAddress_none (h : network.addr = .v4 server) {k : ℕ} {a : BitVec 32}
    (hfirst : Prefix.first server network.bits < a.toNat)
    (hk : Prefix.last server network.bits ≤ a.toNat + k)
    (hnone : Store.freeAddress network used k (.v4 a) = none) (b : BitVec 32)
    (hab : a.toNat ≤ b.toNat) (hb : b.toNat < Prefix.last server network.bits) :
    used (Addr.v4 b).string = true := by
  induction k generalizing a with
  | zero => omega
  | succ k ih =>
    obtain ⟨hsucc, hloop⟩ := freeAddress_succ used h hfirst (hab.trans_lt hb) k
    rw [hloop] at hnone
    split_ifs at hnone with hused
    by_cases heq : a = b
    · rw [← heq]
      exact hused
    · have hne : a.toNat ≠ b.toNat := fun h => heq (BitVec.toNat_inj.1 h)
      exact ih (by omega) (by omega) hnone (by omega)

end Loop

/-! ## Provisioning -/

/-- The protocols of a user: the default ones, or a selection. -/
def ValidProtocols (protocols : Option (List Bytes)) : Prop :=
  ∀ ps ∈ protocols, ps ≠ [] ∧ ps.Nodup ∧
    ∀ p ∈ ps, p = str "quic" ∨ p = str "https" ∨ p = str "awg"

theorem validProtocols_of_check {protocols : Option (List Bytes)}
    (h : Store.checkProtocols protocols = none) : ValidProtocols protocols := by
  intro ps hps
  rw [Option.mem_def] at hps
  rw [hps, Store.checkProtocols] at h
  split_ifs at h with hlen hsel
  rw [not_or] at hlen
  exact ⟨fun hnil => hlen.1 (by rw [hnil]; rfl), hsel.1, hsel.2⟩

/-- The address is one of a peer of a user. -/
def Held (users : Map Bytes User) (address : Bytes) : Prop :=
  ∃ id v p, users.lookup id = some v ∧ v.awg = some p ∧ p.address = address

theorem used_iff {network : Prefix} {s : Store} {address : Bytes} :
    s.used network address = true ↔ address = network.addr.string ∨ Held s.state.users address := by
  rw [Store.used, decide_eq_true_eq, Map.any_iff]
  refine or_congr_right ⟨?_, ?_⟩
  · rintro ⟨id, v, hv, p, hp, ha⟩
    exact ⟨id, v, p, hv, hp, ha⟩
  · rintro ⟨id, v, p, hv, hp, ha⟩
    exact ⟨id, v, hv, p, hp, ha⟩

/-- The peer made of a seed. -/
def peerOf (seed : PeerSeed) (address : Bytes) : Peer where
  privateKey := base64Encode seed.privateKey
  publicKey := base64Encode seed.publicKey
  psk := base64Encode seed.psk
  address := address

/-- What provisioning makes of the peer of a user: the same, if it has the peer it
    is to have or is to have none, or a new one, at a free host of the network. -/
inductive Provisioned (s : Store) (seed : Except String PeerSeed)
    (protocols : Option (List Bytes)) (awg : Option Peer) : Option Peer → Prop
  | same (has : AwgServer.enabled protocols (str "awg") → awg.isSome) :
      Provisioned s seed protocols awg awg
  | peer {c : Config} {network : Prefix} {a : BitVec 32} {keys : PeerSeed}
      (config : s.awgConfig = some c) (identity : s.state.awg.isSome) (none : awg = none)
      (parse : parsePrefix c.address = some network) (host : Host network a)
      (free : ¬ Held s.state.users (Addr.v4 a).string) (seed_eq : seed = .ok keys) :
      Provisioned s seed protocols awg (some (peerOf keys (Addr.v4 a).string))

variable {s : Store} {seed : Except String PeerSeed} {u u' : User}

/-- The loop starts after the first address of the network. -/
theorem next_masked {network : Prefix} {server : BitVec 32} (h : network.addr = .v4 server)
    (hbits : network.bits ≤ 29) : ∃ a, network.masked.addr.next = some (.v4 a) ∧
      a.toNat = Prefix.first server network.bits + 1 ∧
      a.toNat < Prefix.last server network.bits := by
  have hlast := Prefix.last_lt server (hbits.trans (by decide : 29 ≤ 32))
  have hsize : 8 ≤ 2 ^ (32 - network.bits) :=
    Nat.pow_le_pow_right (n := 2) (by decide) (show 3 ≤ 32 - network.bits by omega)
  rw [Prefix.masked_v4 h]
  rw [Prefix.last] at hlast ⊢
  generalize Prefix.first server network.bits = f at hlast ⊢
  have hf : (BitVec.ofNat 32 f).toNat = f := Nat.mod_eq_of_lt (by omega)
  have hne : BitVec.ofNat 32 f ≠ BitVec.allOnes 32 := fun hall => by
    rw [hall] at hf
    have hones : (BitVec.allOnes 32).toNat = 2 ^ 32 - 1 := rfl
    omega
  refine ⟨BitVec.ofNat 32 f + 1, ?_, ?_⟩
  · rw [Addr.next, if_neg hne]
  · have hsucc : (BitVec.ofNat 32 f + 1).toNat = f + 1 := by
      rw [BitVec.toNat_add, hf]
      exact Nat.mod_eq_of_lt (show f + 1 < 2 ^ 32 by omega)
    rw [hsucc]
    omega

/-- The address found in a valid network is that of a free host. -/
theorem host_of_freeAddress {network : Prefix} {server : BitVec 32} (h : network.addr = .v4 server)
    (hbits : network.bits ≤ 29) {k : ℕ} {t : Bytes}
    (ht : network.masked.addr.next.bind (Store.freeAddress network (s.used network) k) = some t) :
    ∃ a, t = (Addr.v4 a).string ∧ Host network a ∧ ¬ Held s.state.users t := by
  obtain ⟨a₁, hnext, hfirst, hlast⟩ := next_masked h hbits
  rw [hnext, Option.bind_some] at ht
  obtain ⟨a, rfl, hlo, hhi, hfree⟩ := freeAddress_some h (by omega) hlast.le ht
  have hnot : ¬ (s.used network (Addr.v4 a).string = true) := by
    rw [hfree]
    exact Bool.false_ne_true
  rw [used_iff, not_or] at hnot
  refine ⟨a, rfl, ⟨server, h, hlo, hhi, fun heq => hnot.1 ?_⟩, hnot.2⟩
  rw [h, heq]

theorem provisionAWG_ok (hvalid : ∀ c ∈ s.awgConfig, c.validate = none)
    (h : s.provisionAWG seed u = .ok u') :
    ValidProtocols u.protocols ∧
      ∃ awg, u' = { u with awg := awg } ∧ Provisioned s seed u.protocols u.awg awg := by
  rw [Store.provisionAWG] at h
  split at h
  · cases h
  · rename_i hcheck
    refine ⟨validProtocols_of_check hcheck, ?_⟩
    by_cases hallow : u.allows (str "awg") = true
    · -- The user is to have a peer.
      rw [if_neg (not_not.2 hallow)] at h
      split at h
      · rename_i c i hc hi
        by_cases hawg : u.awg.isSome = true
        · rw [if_pos hawg] at h
          cases h
          exact ⟨u.awg, rfl, .same fun _ => hawg⟩
        · obtain ⟨network, server, hparse, haddr, _, hbits⟩ :=
            AwgServer.Config.network_of_validate (hvalid c hc)
          rw [if_neg hawg, hparse] at h
          simp only at h
          split at h
          · cases h
          · rename_i address haddress
            obtain ⟨a, rfl, hhost, hfree⟩ := host_of_freeAddress haddr hbits haddress
            cases seed with
            | error e => cases h
            | ok keys =>
              cases h
              exact ⟨_, rfl, .peer hc (by rw [hi]; rfl) (Option.not_isSome_iff_eq_none.1 hawg)
                hparse hhost hfree rfl⟩
      · cases h
    · rw [if_pos hallow] at h
      cases h
      exact ⟨u.awg, rfl, .same fun hallow' => absurd hallow' hallow⟩

/-- The errors of the protocols are not that of the pool. -/
theorem checkProtocols_ne (protocols : Option (List Bytes)) :
    Store.checkProtocols protocols ≠ some (.new "AWG address pool exhausted") := by
  cases protocols with
  | none => exact fun h => by cases h
  | some ps =>
    rw [Store.checkProtocols]
    split_ifs <;> decide

/-- Provisioning gives up only when all hosts of the network are taken. -/
theorem provisionAWG_exhausted (hvalid : ∀ c ∈ s.awgConfig, c.validate = none)
    (h : s.provisionAWG seed u = .error (.new "AWG address pool exhausted")) :
    ∃ c network, s.awgConfig = some c ∧ parsePrefix c.address = some network ∧
      ∀ a, Host network a → Held s.state.users (Addr.v4 a).string := by
  rw [Store.provisionAWG] at h
  split at h
  · rename_i e hcheck
    cases h
    exact absurd hcheck (checkProtocols_ne _)
  · by_cases hallow : u.allows (str "awg") = true
    · rw [if_neg (not_not.2 hallow)] at h
      split at h
      · rename_i c i hc hi
        by_cases hawg : u.awg.isSome = true
        · rw [if_pos hawg] at h
          cases h
        · obtain ⟨network, server, hparse, haddr, _, hbits⟩ :=
            AwgServer.Config.network_of_validate (hvalid c hc)
          refine ⟨c, network, hc, hparse, fun a ⟨server', hs, hlo, hhi, hne⟩ => ?_⟩
          obtain rfl : server' = server := Addr.v4.inj (hs.symm.trans haddr)
          rw [if_neg hawg, hparse] at h
          simp only at h
          split at h
          · rename_i hnone
            obtain ⟨a₁, hnext, hfirst, _⟩ := next_masked haddr hbits
            rw [hnext, Option.bind_some] at hnone
            have hfuel : Prefix.last server' network.bits ≤ a₁.toNat + 2 ^ (32 - network.bits) := by
              rw [Prefix.last, hfirst, Nat.add_right_comm]
              exact (Nat.sub_le _ _).trans (Nat.le_succ _)
            have hused := freeAddress_none haddr (by omega) hfuel hnone a (by omega) hhi
            refine (used_iff.1 hused).resolve_left fun heq => hne ?_
            rw [haddr] at heq
            exact string_v4_inj heq
          · cases seed <;> cases h
      · exact absurd h (by decide)
    · rw [if_pos hallow] at h
      cases h

end QuicLab.Admin
