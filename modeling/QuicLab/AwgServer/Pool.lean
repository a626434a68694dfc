import QuicLab.AwgServer.Config

/-!
# The address pool

The addresses a valid configuration leaves to the peers: the hosts of its network
other than the server (`Host`). The admin server allocates them one by one, and
the worker checks each by itself; `host_iff` is what the worker checks.
-/

namespace QuicLab.AwgServer

open Go Netip

/-- A host of the network: neither its first address (the network's own), nor its
    last one (the broadcast address), nor the server. -/
def Host (network : Prefix) (a : BitVec 32) : Prop :=
  ∃ server, network.addr = .v4 server ∧ Prefix.first server network.bits < a.toNat ∧
    a.toNat < Prefix.last server network.bits ∧ a ≠ server

/-- What `Config.Validate` says about the address. -/
theorem Config.network_of_validate {c : Config} (h : c.validate = none) :
    ∃ network server, parsePrefix c.address = some network ∧ network.addr = .v4 server ∧
      16 ≤ network.bits ∧ network.bits ≤ 29 := by
  rw [validate] at h
  split_ifs at h with h1 h2 h3
  rw [validAddress] at h3
  split at h3
  · cases h3
  · rename_i network hnet
    simp only [Bool.decide_and, Bool.and_eq_true, decide_eq_true_eq] at h3
    obtain ⟨h4, hlo, hhi, _⟩ := h3
    cases haddr : network.addr with
    | v4 server => exact ⟨network, server, hnet, haddr, hlo, hhi⟩
    | v6 a z =>
      rw [haddr] at h4
      cases h4

/-- The addresses the worker accepts for a peer. -/
theorem host_iff {network : Prefix} {server : BitVec 32} (h : network.addr = .v4 server)
    (a : BitVec 32) : Host network a ↔ network.contains (.v4 a) = true ∧ Addr.v4 a ≠ network.addr ∧
      Addr.v4 a ≠ network.masked.addr ∧ (Addr.v4 a).next.any network.contains = true := by
  have hbits : network.bits ≤ 32 := by
    have := network.bits_le
    rwa [h] at this
  have hlast := Prefix.last_lt server hbits
  have hfirst : (BitVec.ofNat 32 (Prefix.first server network.bits)).toNat =
      Prefix.first server network.bits := by
    rw [BitVec.toNat_ofNat, Nat.mod_eq_of_lt]
    exact (Prefix.first_le server _).trans_lt server.isLt
  have hmask : Addr.v4 a ≠ network.masked.addr ↔ a.toNat ≠ Prefix.first server network.bits := by
    rw [Prefix.masked_v4 h, ne_eq, Addr.v4.injEq, ← BitVec.toNat_inj, hfirst]
  have haddr : Addr.v4 a ≠ network.addr ↔ a ≠ server := by rw [h, ne_eq, Addr.v4.injEq]
  rw [hmask, haddr]
  refine ⟨fun ⟨server', hs, h1, h2, h3⟩ => ?_, fun ⟨hc, h1, h2, h3⟩ => ?_⟩
  · obtain rfl : server' = server := Addr.v4.inj (hs.symm.trans h)
    have hc := (Prefix.contains_v4 h a).2 ⟨h1.le, h2.le⟩
    exact ⟨hc, h3, h1.ne', (Prefix.contains_next_v4 h hc).2 h2.ne⟩
  · obtain ⟨hlo, hhi⟩ := (Prefix.contains_v4 h a).1 hc
    have hne := (Prefix.contains_next_v4 h hc).1 h3
    exact ⟨server, h, lt_of_le_of_ne hlo (Ne.symm h2), lt_of_le_of_ne hhi hne, h1⟩

/-- A configuration with six hosts. -/
def sampleConfig : Config where
  healthCheckIntervalSeconds := 0
  offlineAfterSeconds := 0
  endpoint := str "vpn:51820"
  address := str "10.8.0.1/29"
  dns := str "10.8.0.1"
  allowedIPs := [str "0.0.0.0/0"]
  interface := str "ql-awg0"
  mtu := 1280

/-- A key with all bytes the same. -/
def sampleKey (n : UInt8) : Key := ⟨List.replicate 32 n, List.length_replicate⟩

end QuicLab.AwgServer
