import QuicLab.Go.Map
import QuicLab.Go.Net
import QuicLab.Go.Time

/-!
# Traffic statistics

The statistics the admin server keeps for each user: the bytes of the last 600
seconds, in a ring with one bucket for each second, and the live connections.
-/

namespace QuicLab.Admin

open Go

/-- The bytes of one second. -/
structure TrafficBucket where
  second : ℤ
  tx : UInt64
  rx : UInt64

/-- A live connection. -/
structure LiveConnection where
  transport : Bytes
  connected : Time

/-- The statistics of a user. -/
structure UserTraffic where
  buckets : Fin 600 → TrafficBucket
  live : Map Bytes LiveConnection

namespace UserTraffic

/-- The statistics of a new user. -/
def new : UserTraffic := ⟨fun _ => ⟨0, 0, 0⟩, ∅⟩

/-- `userTraffic.add`, from 1970 on. -/
def add (now : Time) (tx rx : ℤ) (u : UserTraffic) : UserTraffic :=
  let second := now.unix
  let i : Fin 600 := Fin.ofNat 600 (second % 600).toNat
  let b := if (u.buckets i).second ≠ second then ⟨second, 0, 0⟩ else u.buckets i
  let b := if 0 < tx then { b with tx := b.tx + UInt64.ofNat tx.toNat } else b
  let b := if 0 < rx then { b with rx := b.rx + UInt64.ofNat rx.toNat } else b
  { u with buckets := Function.update u.buckets i b }

/-- Removes a live connection. -/
def delete (token : Bytes) (u : UserTraffic) : UserTraffic := { u with live := u.live.erase token }

end UserTraffic

/-- `sourceIP`: the host of an address with a port, or the text itself. -/
def sourceIP (peer : Bytes) : Bytes :=
  match splitHostPort peer with
  | some (h, _) => h
  | none => peer

end QuicLab.Admin
