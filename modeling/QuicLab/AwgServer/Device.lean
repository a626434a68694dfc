import QuicLab.Go.Base64
import QuicLab.Go.Map
import QuicLab.Go.Netip

/-!
# The peers of a WireGuard device

A device is configured by texts of `key=value` lines. Its peers are a table from
public keys to preshared keys and allowed IPs, and an allowed IP is that of one
peer: giving it to another one takes it from the first.

The device is third-party code, and is a parameter: `Device` is any state with an
`IpcSet`, and `Device.Lawful` is what its documentation says about the texts that
add and remove peers.
-/

namespace QuicLab.AwgServer

open Go Netip

/-- A key of 32 bytes. -/
abbrev Key := { b : Bytes // b.length = 32 }

theorem length_hexEncode_key (k : Key) : (hexEncode k).length = 64 := by
  rw [length_hexEncode, k.2]

/-! ## Texts -/

/-- Sets the keys of a peer, and its only allowed IP. -/
def peerText (pub psk address : Bytes) : Bytes :=
  str "public_key=" ++ (pub ++ (str "\npreshared_key=" ++ (psk ++
    (str "\nreplace_allowed_ips=true\nallowed_ip=" ++ (address ++ str "/32\n")))))

/-- Removes a peer. -/
def removeText (pub : Bytes) : Bytes := str "public_key=" ++ (pub ++ str "\nremove=true\n")

/-- Sets the key, the port and the parameters of the server. -/
def serverText (key port parameters : Bytes) : Bytes :=
  str "private_key=" ++ (key ++ (str "\nlisten_port=" ++ (port ++ (str "\n" ++ parameters))))

/-- The text is about the peer with the key `pub`. -/
def About (pub text : Bytes) : Prop := ∃ rest, text = str "public_key=" ++ (pub ++ rest)

theorem about_peerText {pub pub' : Bytes} (h : pub.length = pub'.length) {psk address : Bytes}
    (ha : About pub (peerText pub' psk address)) : pub = pub' := by
  obtain ⟨rest, hrest⟩ := ha
  exact (List.append_inj (List.append_cancel_left hrest) h.symm).1.symm

theorem about_removeText {pub pub' : Bytes} (h : pub.length = pub'.length)
    (ha : About pub (removeText pub')) : pub = pub' := by
  obtain ⟨rest, hrest⟩ := ha
  exact (List.append_inj (List.append_cancel_left hrest) h.symm).1.symm

theorem not_about_serverText (pub key port parameters : Bytes) :
    ¬ About pub (serverText key port parameters) := by
  rintro ⟨rest, hrest⟩
  have hhead : str "pr" = str "pu" := congrArg (List.take 2) hrest
  exact absurd hhead (by decide)

/-- A text determines the preshared key and the address. -/
theorem peerText_inj {pub psk psk' address address' : Bytes} (hlen : psk.length = psk'.length)
    (h : peerText pub psk address = peerText pub psk' address') :
    psk = psk' ∧ address = address' := by
  have hpub := List.append_cancel_left (List.append_cancel_left h)
  obtain ⟨hpsk, hrest⟩ := List.append_inj (List.append_cancel_left hpub) hlen
  exact ⟨hpsk, List.append_cancel_right (List.append_cancel_left hrest)⟩

/-! ## Devices -/

/-- A peer of a device. -/
structure DevicePeer where
  psk : Bytes
  allowed : Finset Prefix
  deriving DecidableEq

/-- The peers of a device, by the hexadecimal text of their public keys. -/
abbrev PeerTable := Map Bytes DevicePeer

/-- The table after a peer is set: its address is taken from the other peers. -/
def PeerTable.set (t : PeerTable) (pub psk : Bytes) (ip : BitVec 32) : PeerTable :=
  Finmap.insert pub ⟨psk, {.single ip}⟩
    (t.mapVals fun q => { q with allowed := q.allowed.erase (.single ip) })

theorem PeerTable.lookup_set (t : PeerTable) (pub psk : Bytes) (ip : BitVec 32) (k : Bytes) :
    (t.set pub psk ip).lookup k = if k = pub then some ⟨psk, {.single ip}⟩ else
      (t.lookup k).map fun q => { q with allowed := q.allowed.erase (.single ip) } := by
  rw [PeerTable.set, Map.lookup_insert', Map.lookup_mapVals]

/-- A device with states `D`: `IpcSet`, which succeeds or not, and its peers. -/
structure Device (D : Type*) where
  ipcSet : Bytes → D → Bool × D
  peers : D → PeerTable

/-- What is documented about a device. -/
structure Device.Lawful {D : Type*} (dev : Device D) : Prop where
  /-- A failing `IpcSet` leaves the peers. -/
  failed : ∀ {text d d'}, dev.ipcSet text d = (false, d') → dev.peers d' = dev.peers d
  /-- Configuring the server adds no peer. -/
  server : ∀ {key port parameters d d'},
    dev.ipcSet (serverText key port parameters) d = (true, d') → dev.peers d = ∅ →
      dev.peers d' = ∅
  /-- Setting a peer. -/
  peer : ∀ {pub psk : Key} {address : Bytes} {ip d d'}, parseAddr address = some (.v4 ip) →
    dev.ipcSet (peerText (hexEncode pub) (hexEncode psk) address) d = (true, d') →
      dev.peers d' = (dev.peers d).set (hexEncode pub) (hexEncode psk) ip
  /-- Removing a peer. -/
  remove : ∀ {pub : Key} {d d'}, dev.ipcSet (removeText (hexEncode pub)) d = (true, d') →
    dev.peers d' = (dev.peers d).erase (hexEncode pub)

end QuicLab.AwgServer
