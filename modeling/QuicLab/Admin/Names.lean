import QuicLab.Admin.Invariant
import QuicLab.Go.Utf8

/-!
# Names across restarts

The store checks names as byte strings: their length in bytes, and that no other
user has the same bytes. It saves them as JSON, which keeps valid UTF-8 only
(`DiskState.reread`).

* `names_kept_iff`: whatever was called since the store was opened, reopening it
  gives every user its name if and only if all names are valid UTF-8.
-/

namespace QuicLab.Admin

open Go
open AwgServer (Identity Peer)

/-! ## Reading what was saved -/

/-- The peer of a user that was saved and read again. -/
def rereadPeer (p : Peer) : Peer where
  privateKey := jsonString p.privateKey
  publicKey := jsonString p.publicKey
  psk := jsonString p.psk
  address := jsonString p.address

/-- The identity that was saved and read again. -/
def rereadIdentity (i : Identity) : Identity where
  privateKey := jsonString i.privateKey
  publicKey := jsonString i.publicKey
  headers := i.headers

/-- A user that was saved and read again. Its id is hex digits. -/
def User.reread (u : User) : User :=
  { u with
    protocols := u.protocols.map (·.map jsonString)
    awg := u.awg.map rereadPeer
    lastTransport := jsonString u.lastTransport
    lastSource := jsonString u.lastSource
    name := jsonString u.name
    certificate := jsonString u.certificate
    key := jsonString u.key }

/-- The state that was saved and read again. -/
def DiskState.reread (d : DiskState) : DiskState where
  awg := d.awg.map rereadIdentity
  version := d.version
  ca := jsonString d.ca
  key := jsonString d.key
  users := d.users.mapVals User.reread

namespace Store

/-- `OpenStore`, of the file of a store. -/
def reopen (env : OpenEnv) (s : Store) : Except Error Store :=
  openStore env (s.file.map DiskState.reread)

/-- The runs of a store: it is opened, with no file or one that is well represented,
    and then called. -/
def runs (x : Certs) (A : Assumptions) : System Store Call where
  init s := ∃ env file, (∀ d, file = some d → StateInv A d) ∧ openStore env file = .ok s
  step s c s' := c.Assumed A s ∧ (c.apply x s).2.2 = s'

/-- Every user of `s` has its name in `s'`, and the names are still distinct and of
    at most 100 bytes. -/
structure NamesKept (s s' : Store) : Prop where
  same : ∀ id, (s'.state.users.lookup id).map (·.name) = (s.state.users.lookup id).map (·.name)
  distinct : s'.state.users.Distinct fun u => some u.name
  length : ∀ id u, s'.state.users.lookup id = some u → u.name.length ≤ 100

/-- All names are valid UTF-8. -/
def ValidNames (s : Store) : Prop :=
  ∀ id u, s.state.users.lookup id = some u → validString u.name = true

end Store

/-! ## Results -/

variable {x : Certs} {A : Assumptions} {s s' : Store}

theorem inv_of_calls {cs : List Call} (h : (Store.runs x A).Run cs s) : Inv A s := by
  induction h with
  | init h =>
    obtain ⟨env, file, hfile, hopen⟩ := h
    exact Inv.opened hfile hopen
  | step _ hs ih =>
    obtain ⟨ha, rfl⟩ := hs
    exact ih.call ha

/-- The names of a store that is reopened are those it had, written as JSON. -/
theorem names_reopen (h : Inv A s) {env : Store.OpenEnv} (hopen : s.reopen env = .ok s')
    (id : Bytes) : (s'.state.users.lookup id).map (·.name) =
      (s.state.users.lookup id).map fun u => jsonString u.name := by
  obtain ⟨d, hd, hcore⟩ := h.file
  have hnames := congrArg (fun d : DiskState => (d.users.lookup id).map fun u => jsonString u.name)
    hcore
  simp only [DiskState.core, Map.lookup_mapVals, Option.map_map] at hnames
  rw [Store.reopen, hd] at hopen
  obtain ⟨d', notAfter, rfl, hd' | ⟨hnone, -⟩⟩ := openStore_ok hopen
  · cases hd'
    rw [Store.opened, DiskState.reread, Map.lookup_mapVals, Option.map_map]
    exact hnames
  · cases hnone

/-- There is an environment in which the store is reopened. -/
theorem exists_reopen (h : Inv A s) : ∃ env s', s.reopen env = .ok s' := by
  obtain ⟨d, hd, hcore⟩ := h.file
  have hversion : d.reread.version = 1 := by
    have hsame := congrArg DiskState.version hcore
    exact hsame.trans h.state.version
  refine ⟨⟨none, .ok 0, [], [], none⟩, Store.opened (some d.reread) d.reread 0, ?_⟩
  rw [Store.reopen, hd, Option.map_some, Store.openStore]
  exact if_neg (not_not.2 hversion)

/-- Valid names are kept. -/
theorem namesKept_of_valid (h : Inv A s) (hvalid : s.ValidNames) {env : Store.OpenEnv}
    (hopen : s.reopen env = .ok s') : s.NamesKept s' := by
  have hsame : ∀ id, (s'.state.users.lookup id).map (·.name) =
      (s.state.users.lookup id).map (·.name) := fun id => by
    rw [names_reopen h hopen]
    cases hu : s.state.users.lookup id with
    | none => rfl
    | some u => exact congrArg some ((jsonString_eq_iff u.name).2 (hvalid id u hu))
  have hbefore : ∀ {id u'}, s'.state.users.lookup id = some u' →
      ∃ u, s.state.users.lookup id = some u ∧ u.name = u'.name := fun {id u'} hu' => by
    have hname := hsame id
    rw [hu', Option.map_some] at hname
    exact Option.map_eq_some_iff.1 hname.symm
  refine ⟨hsame, fun i j u v n hu hv hun hvn => ?_, fun id u hu => ?_⟩
  · obtain ⟨u₀, hu₀, hname⟩ := hbefore hu
    obtain ⟨v₀, hv₀, hname'⟩ := hbefore hv
    exact h.state.names i j u₀ v₀ n hu₀ hv₀ ((congrArg some hname).trans hun)
      ((congrArg some hname').trans hvn)
  · obtain ⟨u₀, hu₀, hname⟩ := hbefore hu
    exact hname ▸ (h.state.name id u₀ hu₀).2

/-! ### Two users

A store is opened, and two users are created with names of the same length. -/

namespace Names

/-- The creation of a user. -/
def create (id name : Bytes) : Call :=
  .create ⟨none, none, 0, id, .error "", .ok [1], .ok [2], none⟩ name none

/-- The store after the users were created. -/
def sample (name name' : Bytes) : Store :=
  ((create (str "b") name').apply sampleCerts
    ((create (str "a") name).apply sampleCerts (sampleStore [])).2.2).2.2

theorem create_assumed {id : Bytes} (h : s.state.users.lookup id = none) (name : Bytes) :
    (create id name).Assumed (.fixed none) s :=
  ⟨h, fun _ keys hkeys => by cases hkeys⟩

theorem sample_run (name name' : Bytes) (hfresh : ((create (str "a") name).apply sampleCerts
      (sampleStore [])).2.2.state.users.lookup (str "b") = none) :
    (Store.runs sampleCerts (.fixed none)).Run
      ([] ++ [create (str "a") name] ++ [create (str "b") name']) (sample name name') := by
  have hopen : (Store.runs sampleCerts (.fixed none)).Run [] (sampleStore []) :=
    .init ⟨⟨none, .ok 1, [], [], none⟩, none, fun d hd => (by cases hd), rfl⟩
  exact (hopen.step ⟨create_assumed rfl name, rfl⟩).step ⟨create_assumed hfresh name', rfl⟩

end Names

/-- Names of 34 bytes `0xFF` and of 34 bytes `0xFE` are accepted; after the store was
    reopened they are the same 102 bytes. -/
theorem names_lost : ∃ cs s s', (Store.runs sampleCerts (.fixed none)).Run cs s ∧
    s.reopen ⟨none, .ok 1, [], [], none⟩ = .ok s' ∧
    (s.state.users.lookup (str "a")).map (·.name) = some (List.replicate 34 0xFF) ∧
    (s.state.users.lookup (str "b")).map (·.name) = some (List.replicate 34 0xFE) ∧
    (s'.state.users.lookup (str "a")).map (·.name) =
      (s'.state.users.lookup (str "b")).map (·.name) ∧
    (s'.state.users.lookup (str "a")).map (·.name.length) = some 102 :=
  ⟨_, _, _, Names.sample_run (List.replicate 34 0xFF) (List.replicate 34 0xFE) (by decide +kernel),
    rfl, by decide +kernel, by decide +kernel, by decide +kernel, by decide +kernel⟩

/-- Names across a restart. Whatever was called since the store was opened,
    reopening it keeps the names of its users if and only if they are all valid
    UTF-8. -/
theorem names_kept_iff {cs : List Call} (h : (Store.runs x A).Run cs s) :
    (∀ env s', s.reopen env = .ok s' → s.NamesKept s') ↔ s.ValidNames := by
  have hinv := inv_of_calls h
  refine ⟨fun hkept id u hu => ?_, fun hvalid env s' hopen => namesKept_of_valid hinv hvalid hopen⟩
  obtain ⟨env, s', hopen⟩ := exists_reopen hinv
  have hname := (hkept env s' hopen).same id
  rw [names_reopen hinv hopen, hu] at hname
  exact (jsonString_eq_iff u.name).1 (Option.some.inj hname)

/-- Two names in Cyrillic letters are kept. -/
theorem names_kept_iff_valid : ∃ s',
    (Names.sample (str "Анна") (str "Борис")).reopen ⟨none, .ok 1, [], [], none⟩ = .ok s' ∧
      (Names.sample (str "Анна") (str "Борис")).NamesKept s' := by
  have hvalid : (Names.sample (str "Анна") (str "Борис")).ValidNames := fun id u hu => by
    by_contra hinvalid
    have hnone : ¬ (Names.sample (str "Анна") (str "Борис")).state.users.Any
        fun _ u => ¬ validString u.name = true := by decide +kernel
    exact hnone (Map.any_iff.2 ⟨id, u, hu, hinvalid⟩)
  have hopen : (Names.sample (str "Анна") (str "Борис")).reopen ⟨none, .ok 1, [], [], none⟩ =
    .ok _ := rfl
  exact ⟨_, hopen, (names_kept_iff (Names.sample_run _ _ (by decide +kernel))).2 hvalid _ _ hopen⟩

end QuicLab.Admin
