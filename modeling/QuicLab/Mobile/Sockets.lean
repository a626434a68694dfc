import QuicLab.Mobile.Client
import Mathlib.Data.List.Nodup

/-!
# The sockets of the echo client

Every transport a client opens is in exactly one place: it is the active path, a
standby, in the hands of a goroutine that retires it, or closed. Calls only move
transports from one place to another, or add one in some place (`Moved`).

* `sockets_conserved`: this holds in every state the client can reach; the two
  standbys are for different keys; `MigrateTo` makes a transport of its key the
  active one, or leaves the active one; and `Stop` returns, with every transport
  closed exactly once.
-/

namespace QuicLab.Mobile

open Go

namespace Client

/-! ## Places -/

/-- The transport of a standby. -/
def slot (p : Option PreparedPath) : List Transport := (p.map (·.transport)).toList

/-- The transports in all places. -/
def places (c : Client) : List Transport :=
  c.paths ++ slot c.prepared ++ slot c.parked ++ c.retirement.map (·.transport) ++ c.closed

/-- The standbys are for different keys. -/
def KeysDiffer (c : Client) : Prop := ∀ p ∈ c.prepared, ∀ q ∈ c.parked, p.key ≠ q.key

/-- The transports `new` are opened and put in some place, and others may move. -/
structure Moved (new : List Transport) (c c' : Client) : Prop where
  conn : c'.conn = c.conn
  opened : c'.opened = new ++ c.opened
  places : ∀ t, c'.places.count t = new.count t + c.places.count t

/-- The transports a call may open. -/
def New (socket : Except String ℕ) (new : List Transport) : Prop :=
  new = [] ∨ ∃ n key, socket = .ok n ∧ new = [⟨n, key⟩]

variable {c c' c'' : Client} {new new' : List Transport} {key : Bytes} {env : PathEnv}

@[simp]
theorem slot_none : slot none = [] := rfl

@[simp]
theorem slot_some (p : PreparedPath) : slot (some p) = [p.transport] := rfl

theorem count_places (c : Client) (t : Transport) : c.places.count t =
    c.paths.count t + (slot c.prepared).count t + (slot c.parked).count t +
      (c.retirement.map (·.transport)).count t + c.closed.count t := by
  simp only [places, List.count_append]

theorem Moved.refl (c : Client) : Moved [] c c := ⟨rfl, rfl, fun _ => (Nat.zero_add _).symm⟩

theorem Moved.trans (h : Moved new c c') (h' : Moved new' c' c'') : Moved (new' ++ new) c c'' where
  conn := h'.conn.trans h.conn
  opened := by rw [h'.opened, h.opened, List.append_assoc]
  places t := by rw [h'.places, h.places, List.count_append, Nat.add_assoc]

/-! ## Standbys -/

theorem discardPrepared_spec (c : Client) : Moved [] c c.discardPrepared ∧
    c.discardPrepared.paths = c.paths ∧ c.discardPrepared.prepared = none ∧
      c.discardPrepared.parked = c.parked := by
  rw [discardPrepared]
  cases hp : c.prepared with
  | none => exact ⟨.refl c, rfl, hp, rfl⟩
  | some p =>
    refine ⟨⟨rfl, rfl, fun t => ?_⟩, rfl, rfl, rfl⟩
    simp only [count_places, closePath, retire, hp, slot_none, slot_some, List.map_append,
      List.map_singleton, List.count_append, List.count_nil]
    omega

theorem discardParked_spec (c : Client) : Moved [] c c.discardParked ∧
    c.discardParked.paths = c.paths ∧ c.discardParked.prepared = c.prepared ∧
      c.discardParked.parked = none := by
  rw [discardParked]
  cases hp : c.parked with
  | none => exact ⟨.refl c, rfl, rfl, hp⟩
  | some p =>
    refine ⟨⟨rfl, rfl, fun t => ?_⟩, rfl, rfl, rfl⟩
    simp only [count_places, closePath, retire, hp, slot_none, slot_some, List.map_append,
      List.map_singleton, List.count_append, List.count_nil]
    omega

/-- The standbys may change places. -/
theorem moved_of_slots (hslots : ∀ t, (slot c'.prepared).count t + (slot c'.parked).count t =
      (slot c.prepared).count t + (slot c.parked).count t) (hconn : c'.conn = c.conn)
    (hopened : c'.opened = c.opened) (hpaths : c'.paths = c.paths)
    (hret : c'.retirement = c.retirement) (hclosed : c'.closed = c.closed) : Moved [] c c' := by
  refine ⟨hconn, hopened, fun t => ?_⟩
  have := hslots t
  rw [count_places, count_places, hpaths, hret, hclosed, List.count_nil]
  omega

/-- After the first case of `prepare`, what is prepared is for the key. -/
theorem park_spec (hkeys : c.KeysDiffer) (key : Bytes) :
    Moved [] c (c.park key) ∧ (c.park key).paths = c.paths ∧
      (∀ p ∈ (c.park key).prepared, p.key = key) ∧ (c.park key).KeysDiffer := by
  cases hp : c.prepared with
  | none =>
    have hsame : c.park key = c := by rw [park, hp]
    rw [hsame]
    refine ⟨.refl c, rfl, fun p hp' => ?_, hkeys⟩
    cases hp.symm.trans hp'
  | some p =>
    by_cases hkey : p.key = key
    · have hsame : c.park key = c := by rw [park, hp]; exact if_pos hkey
      rw [hsame]
      refine ⟨.refl c, rfl, fun p' hp' => ?_, hkeys⟩
      cases hp.symm.trans hp'
      exact hkey
    · by_cases hparked : c.parked.any (·.key = key) = true
      · -- The two standbys change places.
        have hswap : c.park key = { c with prepared := c.parked, parked := some p } := by
          rw [park, hp]
          exact (if_neg hkey).trans (if_pos hparked)
        have hqkey : ∀ q ∈ c.parked, q.key = key := fun q hq => by
          rw [Option.mem_def] at hq
          simpa [hq] using hparked
        rw [hswap]
        refine ⟨moved_of_slots (fun t => ?_) rfl rfl rfl rfl rfl, rfl, hqkey, fun q hq p' hp' => ?_⟩
        · rw [hp, Nat.add_comm]
        · cases hp'
          exact fun heq => hkey (heq ▸ hqkey q hq)
      · -- The standby takes the place of the parked one.
        have hplace : c.park key = { c.discardParked with parked := some p, prepared := none } := by
          rw [park, hp]
          exact (if_neg hkey).trans (if_neg hparked)
        obtain ⟨hmoved, hpaths, hprep, hpark⟩ := c.discardParked_spec
        rw [hp] at hprep
        have hslots : Moved [] c.discardParked (c.park key) := by
          rw [hplace]
          refine moved_of_slots (fun t => ?_) rfl rfl rfl rfl rfl
          rw [hprep, hpark, Nat.add_comm]
        refine ⟨hmoved.trans hslots, by rw [hplace]; exact hpaths, fun q hq => ?_, fun q hq => ?_⟩
        · rw [hplace] at hq
          cases hq
        · rw [hplace] at hq
          cases hq

/-- After both cases of `prepare`, what is prepared is for the key, and what is
    parked is not. -/
theorem unpark_spec (hkeys : c.KeysDiffer) (key : Bytes) :
    Moved [] c ((c.park key).unpark key) ∧ ((c.park key).unpark key).paths = c.paths ∧
      (∀ p ∈ ((c.park key).unpark key).prepared, p.key = key) ∧
      ∀ q ∈ ((c.park key).unpark key).parked, q.key ≠ key := by
  obtain ⟨hmoved, hpaths, hprep, hdiffer⟩ := park_spec hkeys key
  generalize c.park key = c' at *
  rw [unpark]
  split
  next q hp hq =>
    split_ifs with hkey
    · have hslots : Moved [] c' { c' with prepared := some q, parked := none } := by
        refine moved_of_slots (fun t => ?_) rfl rfl rfl rfl rfl
        rw [hp, hq, Nat.add_comm]
      refine ⟨hmoved.trans hslots, hpaths, fun q' hq' => ?_, fun q' hq' => ?_⟩
      · cases hq'
        exact hkey
      · cases hq'
    · refine ⟨hmoved, hpaths, hprep, fun q' hq' => ?_⟩
      cases hq.symm.trans hq'
      exact hkey
  next hnot =>
    refine ⟨hmoved, hpaths, hprep, fun q hq hkey => ?_⟩
    cases hp : c'.prepared with
    | none => exact hnot q hp hq
    | some p => exact hdiffer p hp q hq ((hprep p hp).trans hkey.symm)

/-! ## Calls -/

/-- A transport that is opened and closed at once. -/
theorem moved_add_close (t : Transport) (c : Client) : Moved [t] c ((c.add t).close t) := by
  refine ⟨rfl, rfl, fun u => ?_⟩
  simp only [count_places, add, close, List.count_cons, List.count_nil]
  omega

/-- The standby `prepare` goes on with is prepared, and for the key. -/
theorem standby_spec (hprep : ∀ p ∈ c.prepared, p.key = key) (env : PathEnv) :
    ∃ new, New env.socket new ∧ Moved new c (c.standby key env).2 ∧
      (c.standby key env).2.paths = c.paths ∧ (c.standby key env).2.parked = c.parked ∧
      (∀ p ∈ (c.standby key env).2.prepared, p.key = key) ∧
      ∀ p, (c.standby key env).1 = .ok p → (c.standby key env).2.prepared = some p := by
  rw [standby]
  cases hp : c.prepared with
  | some p =>
    refine ⟨[], .inl rfl, .refl c, rfl, rfl, hprep, fun p' hp' => ?_⟩
    cases hp'
    exact hp
  | none =>
    cases hs : env.socket with
    | error e =>
      exact ⟨[], .inl rfl, .refl c, rfl, rfl, hprep, fun p' hp' => by cases hp'⟩
    | ok n =>
      cases ha : env.addPath with
      | some e =>
        exact ⟨[⟨n, some key⟩], .inr ⟨n, some key, rfl, rfl⟩, moved_add_close _ c, rfl, rfl, hprep,
          fun p' hp' => by cases hp'⟩
      | none =>
        refine ⟨[⟨n, some key⟩], .inr ⟨n, some key, rfl, rfl⟩, ⟨rfl, rfl, fun u => ?_⟩, rfl, rfl,
          fun p' hp' => ?_, fun p' hp' => ?_⟩
        · simp only [count_places, add, hp, slot_none, slot_some, List.count_nil]
          omega
        · cases hp'
          rfl
        · cases hp'
          rfl

/-- A call found the connection open. -/
theorem conn_of_connected (h : c.connected = none) : c.conn = some ⟨none⟩ := by
  rw [connected] at h
  split at h
  · cases h
  next conn hconn =>
    rw [hconn, show conn = ⟨none⟩ from congrArg Conn.mk (Option.map_eq_none_iff.1 h)]

/-- Only the time of the check of what is prepared changes. -/
theorem moved_checked {p : PreparedPath} (hp : c.prepared = some p) (checked : Time) :
    Moved [] c { c with prepared := some { p with checked := checked } } := by
  refine moved_of_slots (fun t => ?_) rfl rfl rfl rfl rfl
  rw [hp]
  rfl

theorem prepare_spec (hkeys : c.KeysDiffer) (key : Bytes) (env : PathEnv) :
    ∃ new, New env.socket new ∧ Moved new c (c.prepare key env).2 ∧
      (c.prepare key env).2.paths = c.paths ∧ (c.prepare key env).2.KeysDiffer ∧
      ∀ p, (c.prepare key env).1 = .ok p →
        (c.prepare key env).2.prepared = some p ∧ p.key = key := by
  rw [prepare]
  cases hconn : c.connected with
  | some e => exact ⟨[], .inl rfl, .refl c, rfl, hkeys, fun p hp => by cases hp⟩
  | none =>
    obtain ⟨hpark, hpaths, hprep, hparked⟩ := unpark_spec hkeys key
    obtain ⟨new, hnew, hmoved, hpaths', hparked', hprep', hok⟩ := standby_spec hprep env
    have hall : Moved new c (((c.park key).unpark key).standby key env).2 := by
      simpa using hpark.trans hmoved
    rw [← hparked'] at hparked
    rw [hpaths] at hpaths'
    generalize ((c.park key).unpark key).standby key env = r at hall hpaths' hparked hprep' hok
    obtain ⟨_ | p, c'⟩ := r
    · exact ⟨new, hnew, hall, hpaths', fun p hp q hq heq =>
        hparked q hq (heq.symm.trans (hprep' p hp)), fun p hp => by cases hp⟩
    · have hp := hok p rfl
      have hkey := hprep' p hp
      have hchecked := fun checked => hall.trans (moved_checked hp checked)
      cases hprobe : env.probe with
      | some e =>
        refine ⟨new, hnew, hchecked 0, hpaths', fun p' hp' q hq heq => ?_, fun p' hp' => by cases hp'⟩
        cases hp'
        exact hparked q hq (heq.symm.trans hkey)
      | none =>
        refine ⟨new, hnew, hchecked env.probed, hpaths', fun p' hp' q hq heq => ?_, fun p' hp' => ?_⟩
        · cases hp'
          exact hparked q hq (heq.symm.trans hkey)
        · cases hp'
          exact ⟨rfl, hkey⟩

/-- Nothing is prepared after a switch, or a failed one. -/
theorem switch_spec {next : PreparedPath} (hnext : c.prepared = some next)
    (hactive : ∃ t, c.paths = [t]) (env : PathEnv) :
    Moved [] c (c.switch env next).2 ∧ (c.switch env next).2.prepared = none ∧
      ((c.switch env next).1 = none → (c.switch env next).2.paths = [next.transport]) ∧
      ((c.switch env next).1 ≠ none → (c.switch env next).2.paths = c.paths) := by
  obtain ⟨old, hold⟩ := hactive
  rw [switch]
  cases henv : env.switch with
  | some e =>
    obtain ⟨hmoved, hpaths, hprep, -⟩ := c.discardPrepared_spec
    exact ⟨hmoved, hprep, fun h => (by cases h), fun _ => hpaths⟩
  | none =>
    rw [hold]
    cases hpath : c.activePath with
    | none =>
      refine ⟨⟨rfl, rfl, fun t => ?_⟩, rfl, fun _ => rfl, fun h => absurd rfl h⟩
      simp only [count_places, retire, hold, hnext, slot_none, slot_some, List.map_append,
        List.map_singleton, List.count_append, List.count_nil]
      omega
    | some u =>
      refine ⟨⟨rfl, rfl, fun t => ?_⟩, rfl, fun _ => rfl, fun h => absurd rfl h⟩
      simp only [count_places, closePath, retire, hold, hnext, slot_none, slot_some, List.map_append,
        List.map_singleton, List.count_append, List.count_nil]
      omega

theorem keysDiffer_of_none (h : c.prepared = none) : c.KeysDiffer := fun p hp => by
  cases h.symm.trans hp

/-- `MigrateTo` makes a transport of the key the active one, or leaves the active one. -/
theorem migrateTo_spec (hkeys : c.KeysDiffer) (hactive : c.conn.isSome → ∃ t, c.paths = [t])
    (key : Bytes) (env : PathEnv) :
    ∃ new, New env.socket new ∧ Moved new c (c.migrateTo key env).2 ∧
      (c.migrateTo key env).2.KeysDiffer ∧
      ((c.migrateTo key env).1 = none →
        ∃ t, (c.migrateTo key env).2.paths = [t] ∧ t.key = some key) ∧
      ((c.migrateTo key env).1 ≠ none → (c.migrateTo key env).2.paths = c.paths) := by
  rw [migrateTo]
  cases hconn : c.connected with
  | some e => exact ⟨[], .inl rfl, .refl c, hkeys, fun h => (by cases h), fun _ => rfl⟩
  | none =>
    have hsome : c.conn.isSome := by rw [conn_of_connected hconn]; rfl
    cases hwarm : c.warm key env.now with
    | some next =>
      obtain ⟨hnext, hkey⟩ := Option.filter_eq_some_iff.1 hwarm
      obtain ⟨hmoved, hprep, hok, herr⟩ := switch_spec hnext (hactive hsome) env
      refine ⟨[], .inl rfl, hmoved, keysDiffer_of_none hprep, fun h => ⟨_, hok h, ?_⟩, herr⟩
      rw [next.opened, (of_decide_eq_true hkey).1]
    | none =>
      obtain ⟨new, hnew, hmoved, hpaths, hdiffer, hok⟩ := prepare_spec hkeys key env
      generalize c.prepare key env = r at hmoved hpaths hdiffer hok
      obtain ⟨_ | next, c'⟩ := r
      · exact ⟨new, hnew, hmoved, hdiffer, fun h => (by cases h), fun _ => hpaths⟩
      · obtain ⟨hnext, hkey⟩ := hok next rfl
        have hactive' : ∃ t, c'.paths = [t] := by rw [hpaths]; exact hactive hsome
        obtain ⟨hmoved', hprep, hok', herr⟩ := switch_spec hnext hactive' env
        refine ⟨new, hnew, hmoved.trans hmoved', keysDiffer_of_none hprep,
          fun h => ⟨_, hok' h, ?_⟩, fun h => (herr h).trans hpaths⟩
        rw [next.opened, hkey]

theorem invalidatePath_spec (hkeys : c.KeysDiffer) (key : Bytes) :
    Moved [] c (c.invalidatePath key) ∧ (c.invalidatePath key).paths = c.paths ∧
      (c.invalidatePath key).KeysDiffer := by
  have hprepared : ∃ c', Moved [] c c' ∧ c'.paths = c.paths ∧ c'.KeysDiffer ∧
      c.invalidatePath key = if c'.parked.any (·.key = key) then c'.discardParked else c' := by
    obtain ⟨hmoved, hpaths, hprep, -⟩ := c.discardPrepared_spec
    rw [invalidatePath]
    by_cases h : c.prepared.any (·.key = key) = true
    · exact ⟨_, hmoved, hpaths, keysDiffer_of_none hprep, by simp only [if_pos h]⟩
    · exact ⟨c, .refl c, rfl, hkeys, by simp only [if_neg h]⟩
  obtain ⟨c', hmoved, hpaths, hdiffer, heq⟩ := hprepared
  obtain ⟨hmoved', hpaths', -, hparked⟩ := c'.discardParked_spec
  rw [heq]
  split_ifs
  · refine ⟨hmoved.trans hmoved', hpaths'.trans hpaths, fun p _ q hq => ?_⟩
    cases hparked.symm.trans hq
  · exact ⟨hmoved, hpaths, hdiffer⟩

end Client

/-! ## The invariant -/

open Client

/-- The invariant: sockets are distinct, and each is in one place; there is one active
    path while there is a connection, and nothing but closed sockets otherwise. -/
structure World.Inv (w : World) : Prop where
  sockets : (w.client.opened.map (·.socket)).Nodup
  places : ∀ t, w.client.places.count t = w.client.opened.count t
  active : w.client.conn.isSome → ∃ t, w.client.paths = [t]
  idle : w.client.conn = none → w.stopping = false ∧ w.client.paths = [] ∧
    w.client.prepared = none ∧ w.client.parked = none ∧ w.client.retirement = []
  keys : w.client.KeysDiffer
  stopping : w.stopping = true → (∃ cause, w.client.conn = some ⟨some cause⟩) ∧
    w.client.prepared = none ∧ w.client.parked = none

namespace World

variable {c c' : Client} {w w' : World} {a : Act} {new : List Transport}

theorem sockets_append {socket : Except String ℕ} (hnew : New socket new) (hfresh : Fresh socket c)
    (h : (c.opened.map (·.socket)).Nodup) : ((new ++ c.opened).map (·.socket)).Nodup := by
  rcases hnew with rfl | ⟨n, key, hn, rfl⟩
  · exact h
  · refine List.nodup_cons.2 ⟨fun hmem => ?_, h⟩
    obtain ⟨t, ht, heq⟩ := List.mem_map.1 hmem
    exact hfresh n hn t ht heq

/-- A call that moves transports keeps the invariant. -/
theorem Inv.moved (h : Inv ⟨c, false⟩) {socket : Except String ℕ} (hnew : New socket new)
    (hfresh : Fresh socket c) (hmoved : Moved new c c')
    (hactive : c.conn.isSome → ∃ t, c'.paths = [t]) (hkeys : c'.KeysDiffer)
    (hidle : c.conn = none → c' = c ∨ ∃ t, c' = (c.add t).close t) : Inv ⟨c', false⟩ where
  sockets := by
    rw [hmoved.opened]
    exact sockets_append hnew hfresh h.sockets
  places t := by
    rw [hmoved.places, hmoved.opened, List.count_append, h.places]
  active hconn := hactive (hmoved.conn ▸ hconn)
  idle hconn := by
    have hnone : c.conn = none := hmoved.conn ▸ hconn
    obtain ⟨-, hempty⟩ := h.idle hnone
    rcases hidle hnone with rfl | ⟨t, rfl⟩
    · exact ⟨rfl, hempty⟩
    · exact ⟨rfl, hempty⟩
  keys := hkeys
  stopping hstop := by cases hstop

theorem connected_of_none (h : c.conn = none) : c.connected = some (.new "not connected") := by
  rw [connected, h]

theorem Inv.start (h : Inv ⟨c, false⟩) {intervalMS : ℤ} {env : StartEnv}
    (hfresh : Fresh env.socket c) : Inv ⟨(c.start intervalMS env).2, false⟩ := by
  rw [Client.start]
  split_ifs with hconn
  · exact h
  · exact h
  · have hnone : c.conn = none := Option.not_isSome_iff_eq_none.1 hconn
    split
    · exact h
    · exact h
    next n _ hn =>
      obtain ⟨-, hpaths, hprep, hparked, hret⟩ := h.idle hnone
      have hnew : New env.socket [⟨n, none⟩] := .inr ⟨n, none, hn, rfl⟩
      split
      · exact h.moved hnew hfresh (moved_add_close _ c) (fun hsome => absurd hsome hconn) h.keys
          fun _ => .inr ⟨_, rfl⟩
      · refine ⟨sockets_append hnew hfresh h.sockets, fun t => ?_, fun _ => ⟨_, rfl⟩, fun hc => ?_,
          h.keys, fun hstop => ?_⟩
        · have hcount : c.places.count t = c.opened.count t := h.places t
          rw [count_places, show c.paths = [] from hpaths, List.count_nil] at hcount
          rw [count_places]
          simp only [add, List.count_cons, List.count_nil]
          omega
        · cases hc
        · cases hstop

theorem Inv.preparePath (h : Inv ⟨c, false⟩) {key : Bytes} {env : PathEnv}
    (hfresh : Fresh env.socket c) : Inv ⟨(c.preparePath key env).2, false⟩ := by
  obtain ⟨new, hnew, hmoved, hpaths, hkeys, -⟩ := prepare_spec h.keys key env
  have hsame : (c.preparePath key env).2 = (c.prepare key env).2 := by
    rw [Client.preparePath]
    rcases c.prepare key env with ⟨_ | p, c'⟩ <;> rfl
  rw [hsame]
  refine h.moved hnew hfresh hmoved (fun hconn => ?_) hkeys fun hnone => .inl ?_
  · rw [hpaths]
    exact h.active hconn
  · rw [prepare, connected_of_none hnone]

theorem Inv.migrateTo (h : Inv ⟨c, false⟩) {key : Bytes} {env : PathEnv}
    (hfresh : Fresh env.socket c) : Inv ⟨(c.migrateTo key env).2, false⟩ := by
  obtain ⟨new, hnew, hmoved, hkeys, hok, herr⟩ := migrateTo_spec h.keys h.active key env
  refine h.moved hnew hfresh hmoved (fun hconn => ?_) hkeys fun hnone => .inl ?_
  · by_cases hres : (c.migrateTo key env).1 = none
    · obtain ⟨t, ht, -⟩ := hok hres
      exact ⟨t, ht⟩
    · rw [herr hres]
      exact h.active hconn
  · rw [Client.migrateTo, connected_of_none hnone]

theorem Inv.invalidatePath (h : Inv ⟨c, false⟩) (key : Bytes) :
    Inv ⟨c.invalidatePath key, false⟩ := by
  obtain ⟨hmoved, hpaths, hkeys⟩ := invalidatePath_spec h.keys key
  have hnew : New (.error "") [] := .inl rfl
  refine h.moved hnew (fun n hn => by cases hn) hmoved (fun hconn => ?_) hkeys
    fun hnone => .inl ?_
  · rw [hpaths]
    exact h.active hconn
  · obtain ⟨-, -, hprep, hparked, -⟩ := h.idle hnone
    dsimp only at hprep hparked
    simp only [Client.invalidatePath, hprep, hparked, Option.any_none, Bool.false_eq_true, if_false]

theorem Inv.stop (h : Inv ⟨c, false⟩) {conn : Conn} (hconn : c.conn = some conn) :
    Inv ⟨c.stop, true⟩ := by
  obtain ⟨hmoved, hpaths, hprep, -⟩ := c.discardPrepared_spec
  obtain ⟨hmoved', hpaths', hprep', hparked⟩ := c.discardPrepared.discardParked_spec
  have hall := hmoved.trans hmoved'
  have hclosed : c.stop.conn = some ⟨conn.cause <|> some (str "experiment stopped")⟩ := by
    rw [Client.stop]
    simp only [hall.conn, hconn, Option.map_some]
  rw [hprep] at hprep'
  refine ⟨?_, fun t => ?_, fun _ => ?_, fun hnone => ?_, keysDiffer_of_none hprep', fun _ => ?_⟩
  · exact hall.opened ▸ h.sockets
  · have hplaces := hall.places t
    rw [show ([] ++ [] : List Transport).count t = 0 from rfl, Nat.zero_add, h.places] at hplaces
    rw [show c.stop.opened = c.opened from hall.opened, ← hplaces]
    rfl
  · rw [show c.stop.paths = c.paths from hpaths'.trans hpaths]
    exact h.active (by rw [hconn]; rfl)
  · cases hclosed.symm.trans hnone
  · refine ⟨?_, hprep', hparked⟩
    rw [hclosed]
    cases conn.cause with
    | none => exact ⟨_, rfl⟩
    | some cause => exact ⟨_, rfl⟩

theorem Inv.stopped (h : Inv ⟨c, true⟩) (hret : c.retirement = []) : Inv ⟨c.stopped, false⟩ := by
  obtain ⟨-, hprep, hparked⟩ := h.stopping rfl
  refine ⟨h.sockets, fun t => ?_, fun hconn => ?_, fun _ => ⟨rfl, rfl, hprep, hparked, hret⟩,
    keysDiffer_of_none hprep, fun hstop => ?_⟩
  · have hcount : c.places.count t = c.opened.count t := h.places t
    rw [count_places] at hcount
    rw [count_places]
    simp only [Client.stopped, List.count_append, List.count_nil]
    omega
  · cases hconn
  · cases hstop

/-- A goroutine closes a transport it was given. -/
theorem count_retired (t u : Transport) {before after : List Retirement}
    (h : c.retirement = before ++ ⟨t, .trying⟩ :: after) :
    (places { c.close t with retirement := before ++ after }).count u = c.places.count u := by
  rw [count_places, count_places, h]
  simp only [close, List.map_append, List.map_cons, List.count_append, List.count_cons]
  omega

theorem Inv.step (h : Inv w) (hstep : Step w a w') : Inv w' := by
  cases hstep with
  | start hfresh => exact h.start hfresh
  | preparePath hfresh => exact h.preparePath hfresh
  | migrateTo hfresh => exact h.migrateTo hfresh
  | invalidatePath c key => exact h.invalidatePath key
  | stop hconn => exact h.stop hconn
  | stopIdle _ => exact h
  | stopped hret => exact h.stopped hret
  | disconnect hconn =>
    refine ⟨h.sockets, h.places, fun _ => h.active (by rw [hconn]; rfl), fun hnone => ?_, h.keys,
      fun hstop => ?_⟩
    · cases hnone
    · obtain ⟨⟨cause, hcause⟩, -⟩ := h.stopping hstop
      cases hconn.symm.trans hcause
  | @grace _ t before after _ hret =>
    refine ⟨h.sockets, fun u => ?_, h.active, fun hnone => ?_, h.keys, h.stopping⟩
    · rw [← h.places u, count_places, count_places, hret]
      simp only [List.map_append, List.map_cons]
    · obtain ⟨-, -, -, -, hempty⟩ := h.idle hnone
      rw [hret] at hempty
      cases before <;> cases hempty
  | @retired _ t _ before after conn hconn hret _ =>
    refine ⟨h.sockets, fun u => ?_, h.active, fun hnone => ?_, h.keys, h.stopping⟩
    · rw [count_retired t u hret]
      exact h.places u
    · cases hconn.symm.trans hnone
  | retry _ _ => exact h

theorem inv_of_reachable (h : system.Reachable w) : Inv w := by
  refine h.invariant (fun w hw => ?_) fun w a w' hw hstep => hw.step hstep
  subst hw
  exact ⟨List.nodup_nil, fun _ => rfl, fun hconn => (by cases hconn),
    fun _ => ⟨rfl, rfl, rfl, rfl, rfl⟩, keysDiffer_of_none rfl, fun hstop => (by cases hstop)⟩

/-! ## `Stop` returns -/

/-- The steps the goroutines of a client have to take. -/
def pending (c : Client) : ℕ :=
  (c.retirement.map fun r => if r.stage = .grace then 2 else 1).sum

/-- While a `Stop` waits, every step ends it or brings a goroutine nearer to its
    end, and some step can be taken. -/
theorem Inv.stop_progress (h : Inv w) (hstop : w.stopping = true) :
    (∃ a w', Step w a w') ∧
      ∀ a w', Step w a w' → w'.stopping = false ∨ pending w'.client < pending w.client := by
  obtain ⟨⟨cause, hconn⟩, -⟩ := h.stopping hstop
  refine ⟨?_, fun a w' hstep => ?_⟩
  · obtain ⟨c, stopping⟩ := w
    cases hstop
    cases hret : c.retirement with
    | nil => exact ⟨_, _, .stopped hret⟩
    | cons r rs =>
      obtain ⟨t, stage⟩ := r
      cases stage with
      | grace =>
        have hfirst : c.retirement = [] ++ ⟨t, .grace⟩ :: rs := hret
        exact ⟨_, _, .grace true hfirst⟩
      | trying =>
        have hfirst : c.retirement = [] ++ ⟨t, .trying⟩ :: rs := hret
        exact ⟨_, _, .retired hconn hfirst (.inl rfl)⟩
  · cases hstep with
    | start _ => cases hstop
    | preparePath _ => cases hstop
    | migrateTo _ => cases hstop
    | invalidatePath _ _ => cases hstop
    | stop _ => cases hstop
    | stopIdle _ => cases hstop
    | stopped _ => exact .inl rfl
    | disconnect hopen => cases hconn.symm.trans hopen
    | grace _ hret =>
      refine .inr ?_
      simp [pending, hret]
    | retired _ hret _ =>
      refine .inr ?_
      simp [pending, hret]
    | retry hopen _ => cases hconn.symm.trans hopen

/-! ## Results -/

/-- Without a connection, every transport is closed, once. -/
theorem Inv.closed_of_idle (h : Inv w) (hnone : w.client.conn = none) {t : Transport}
    (ht : t ∈ w.client.opened) : w.client.closed.count t = 1 := by
  obtain ⟨-, hpaths, hprep, hparked, hret⟩ := h.idle hnone
  have hcount := h.places t
  rw [count_places, hpaths, hprep, hparked, hret, List.count_eq_one_of_mem h.sockets.of_map ht]
    at hcount
  simpa using hcount

namespace Sample

/-- Everything succeeds, with the socket given. -/
def env (n : ℕ) : PathEnv := ⟨unixTime 100, .ok n, none, none, unixTime 100, none⟩

/-- A client that was started and has a standby. -/
def world : World :=
  ⟨((newClient.start 100 ⟨none, .ok 0, none, none, none⟩).2.preparePath (str "wifi") (env 1)).2,
    false⟩

theorem world_reachable : system.Reachable world := by
  have hinit : system.Reachable ⟨newClient, false⟩ := .init rfl
  refine (hinit.step (.start fun n _ t ht => ?_)).step (.preparePath fun n hn t ht => ?_)
  · cases ht
  · cases hn
    cases ht with
    | head => decide
    | tail _ ht => cases ht

end Sample

/-- The sockets of a client. In every state it can reach, each transport it opened is
    in exactly one place, there is one active path while it is connected, and the
    standbys are for different keys. A `MigrateTo` that succeeds makes a transport
    opened for its key the active one, and one that fails leaves the active one. When
    `Stop` returns, every transport was closed exactly once; and it returns, as
    every step while it waits ends it or brings a goroutine nearer to its end. -/
theorem sockets_conserved (h : system.Reachable w) :
    (∀ t ∈ w.client.opened, w.client.places.count t = 1) ∧
    (w.client.conn.isSome → ∃ t, w.client.paths = [t]) ∧ w.client.KeysDiffer ∧
    (w.stopping = false → ∀ key env, Fresh env.socket w.client →
      ((w.client.migrateTo key env).1 = none → ∃ t ∈ (w.client.migrateTo key env).2.opened,
        (w.client.migrateTo key env).2.paths = [t] ∧ t.key = some key) ∧
      ((w.client.migrateTo key env).1 ≠ none →
        (w.client.migrateTo key env).2.paths = w.client.paths)) ∧
    (∀ a w', Step w a w' → a = .stop ∨ a = .stopped → w'.stopping = false →
      ∀ t ∈ w'.client.opened, w'.client.closed.count t = 1) ∧
    (w.stopping = true → (∃ a w', Step w a w') ∧
      ∀ a w', Step w a w' → w'.stopping = false ∨ pending w'.client < pending w.client) := by
  have hinv := inv_of_reachable h
  refine ⟨fun t ht => ?_, hinv.active, hinv.keys, fun hidle key env hfresh => ?_,
    fun a w' hstep ha hret t ht => ?_, hinv.stop_progress⟩
  · rw [hinv.places, List.count_eq_one_of_mem hinv.sockets.of_map ht]
  · obtain ⟨c, stopping⟩ := w
    cases hidle
    obtain ⟨new, -, -, -, hok, herr⟩ := migrateTo_spec hinv.keys hinv.active key env
    refine ⟨fun hres => ?_, herr⟩
    obtain ⟨t, ht, hkey⟩ := hok hres
    have hplaces : (c.migrateTo key env).2.places.count t =
      (c.migrateTo key env).2.opened.count t := (hinv.migrateTo hfresh).places t
    refine ⟨t, List.count_pos_iff.1 ?_, ht, hkey⟩
    rw [← hplaces, count_places, ht, List.count_singleton_self]
    omega
  · refine (hinv.step hstep).closed_of_idle ?_ ht
    cases hstep with
    | stop _ => cases hret
    | stopIdle hnone => exact hnone
    | stopped _ => rfl
    | _ => rcases ha with ha | ha <;> cases ha

/-- The standby of a client becomes its active path. -/
theorem sockets_conserved_switch :
    (Sample.world.client.migrateTo (str "wifi") (Sample.env 2)).1 = none ∧
    ∃ t, (Sample.world.client.migrateTo (str "wifi") (Sample.env 2)).2.paths = [t] ∧
      t.key = some (str "wifi") := by
  have hres : (Sample.world.client.migrateTo (str "wifi") (Sample.env 2)).1 = none := by
    decide +kernel
  have hfresh : Fresh (Sample.env 2).socket Sample.world.client := fun n hn => by
    cases hn
    decide +kernel
  obtain ⟨t, -, ht, hkey⟩ := ((sockets_conserved Sample.world_reachable).2.2.2.1 rfl (str "wifi")
    (Sample.env 2) hfresh).1 hres
  exact ⟨hres, t, ht, hkey⟩

end World

end QuicLab.Mobile
