import Mathlib.Data.List.Nodup
import QuicLab.Command
import QuicLab.Json
import QuicLab.System

/-!
# The profiles of the app

What the app stores about its VPN profiles, and the operations on it (`VpnProfiles`).
The list of profiles is stored as JSON, and every profile has preferences and an
identity of its own.

The operations are commands. An edit is seen at once, whether or not its commit to the
disk succeeds.

* `Good`: the ids of the profiles are distinct, and there are at most 32 of them.
* `good_of_reachable`: so it is in every state that the operations lead to, if the id of
  a new profile is not one of those stored.
-/

namespace QuicLab.Android.VpnProfiles

open Go Kotlin
open Command (Keeps Triple)

/-- A profile: its id and its name. -/
structure Profile where
  id : Text
  name : Text
  deriving DecidableEq

/-- The preferences of a profile, those that are stored. -/
structure Preferences where
  mode : Option ℤ
  globalApps : Option Bool
  apps : Option (List Text)
  routes : Option Text
  endpoint : Option Text
  hostname : Option Text
  dns : Option Text
  transport : Option Text
  ca : Option Text
  transitEndpoint : Option Text

/-- What is stored: the preferences `vpn_profiles`, and the preferences and the identity
    of every profile. -/
structure Store where
  /-- The list of profiles; `some none` is a text that is not the JSON of one. -/
  profiles : Option (Option (List Profile))
  current : Option Text
  globalApps : Option (List Text)
  multiple : Option Bool
  enabled : Option (List Text)
  dnsProfile : Option Text
  preferences : Text → Preferences
  identity : Text → Option JSONObject

/-- What an operation may throw. -/
inductive Failure
  | thrown (e : Exception)
  | json
  | noSuchElement
  | outOfBounds (index : ℤ)
  | identity (id : Text)

/-- Which commits of an operation succeed: that of the first list of profiles, that of
    the preferences of a profile, and that of `vpn_profiles`. -/
structure Commits where
  first : Bool
  profile : Bool
  write : Bool

abbrev Act (α : Type) := Command Store Failure α

/-- The result of a function that does not change what is stored. -/
def result {α : Type} : Except Failure α → Act α
  | .ok a => pure a
  | .error e => .fail e

/-- A function that throws. -/
def thrown {α : Type} : Except Exception α → Except Failure α
  | .ok a => .ok a
  | .error e => .error (.thrown e)

/-- `check`. -/
def check (value : Bool) (message : Text) : Act Unit :=
  if value then pure () else .fail (.thrown (.illegalState message))

/-! ## Reading -/

/-- The profile of an app that has none stored. -/
def initial : Profile := ⟨txt "default", txt "Основной"⟩

/-- Does the text match `default` or `[a-f0-9-]{36}`? -/
def isProfileId (id : Text) : Bool :=
  id = txt "default" ∨ (id.length = 36 ∧ id.all fun c =>
    (97 ≤ c.toNat && c.toNat ≤ 102) || (48 ≤ c.toNat && c.toNat ≤ 57) || c = unit (ascii '-'))

/-- `VpnProfiles.preferences`. -/
def preferences (s : Store) (id : Text) : Except Exception Preferences := do
  require (isProfileId id) (txt "Failed requirement.")
  .ok (s.preferences id)

/-- `VpnProfiles.globalApps`. -/
def globalApps (s : Store) : List Text := s.globalApps.getD []

/-- `VpnProfiles.apps`. -/
def apps (s : Store) (id : Text) : Except Exception (List Text) := do
  let p ← preferences s id
  .ok (if p.globalApps.getD false then globalApps s else p.apps.getD [])

/-- `VpnProfiles.enabled`. -/
def enabled (s : Store) : List Text := s.enabled.getD []

/-- `VpnProfiles.dnsProfile`. -/
def dnsProfile (s : Store) : Text := s.dnsProfile.getD []

namespace Store

/-- With the first list of profiles stored, if there was none. -/
def withInitial (s : Store) : Store :=
  match s.profiles with
  | some _ => s
  | none =>
    { s with
      profiles := some (some [initial])
      current := some (txt "default")
      globalApps := some ((s.preferences (txt "default")).apps.getD []) }

/-- The profiles there are. -/
def listed (s : Store) : List Profile :=
  match s.profiles with
  | some (some ps) => ps
  | some none => []
  | none => [initial]

end Store

/-- `VpnProfiles.list`. -/
def list (k : Commits) : Act (List Profile) := do
  let s ← Command.get
  if s.profiles.isNone then
    Command.modify Store.withInitial
    check k.first (txt "Check failed.")
  let s ← Command.get
  match s.profiles with
  | some (some ps) => pure ps
  | _ => Command.fail .json

/-- `VpnProfiles.current`. -/
def current (k : Commits) : Act Profile := do
  let profiles ← list k
  let s ← Command.get
  match profiles.find? (fun p => some p.id = s.current) with
  | some p => pure p
  | none =>
    match profiles.head? with
    | some p => pure p
    | none => Command.fail .noSuchElement

/-! ## Operations -/

/-- `VpnProfiles.write`. -/
def write (k : Commits) (profiles : List Profile) (current : Text) : Act Unit := do
  Command.modify fun s => { s with profiles := some (some profiles), current := some current }
  check k.write (txt "Check failed.")

/-- An edit of the other preferences `vpn_profiles`. -/
def edit (k : Commits) (f : Store → Store) : Act Unit := do
  Command.modify f
  check k.write (txt "Check failed.")

/-- `VpnProfiles.editable`; `active` says whether the VPN is running. -/
def editable (active : Bool) : Act Unit := check (!active) (txt "Сначала остановите VPN")

/-- `CharSequence.trim`. -/
def trim (P : Platform) (s : Text) : Text :=
  ((s.dropWhile P.isWhitespace).reverse.dropWhile P.isWhitespace).reverse

/-- `VpnProfiles.name`. -/
def name (P : Platform) (value : Text) : Except Exception Text := do
  let value := trim P value
  require (!P.isBlank value ∧ value.length ≤ 100) (txt "Название: от 1 до 100 символов")
  .ok value

/-- The store with the preferences of a profile changed. -/
def Store.editPreferences (id : Text) (f : Preferences → Preferences) (s : Store) : Store :=
  { s with preferences := Function.update s.preferences id (f (s.preferences id)) }

/-- `VpnProfiles.create`, with the id it makes. -/
def create (P : Platform) (k : Commits) (active : Bool) (uuid title : Text) : Act Profile := do
  editable active
  let profiles ← list k
  result (thrown (require (profiles.length < 32) (txt "Не более 32 профилей")))
  let title ← result (thrown (name P title))
  let s ← Command.get
  let _ ← result (thrown (preferences s uuid))
  Command.modify (Store.editPreferences uuid fun p => { p with globalApps := some true })
  check k.profile (txt "Check failed.")
  write k (profiles ++ [⟨uuid, title⟩]) uuid
  pure ⟨uuid, title⟩

/-- `VpnProfiles.select`. -/
def select (k : Commits) (active : Bool) (id : Text) : Act Unit := do
  editable active
  let profiles ← list k
  result (thrown (require (∃ p ∈ profiles, p.id = id) (txt "Failed requirement.")))
  edit k fun s => { s with current := some id }

/-- `VpnProfiles.rename`. -/
def rename (P : Platform) (k : Commits) (active : Bool) (title : Text) : Act Unit := do
  editable active
  let selected ← current k
  let title ← result (thrown (name P title))
  let profiles ← list k
  write k (profiles.map fun p => if p.id = selected.id then { p with name := title } else p)
    selected.id

/-- No preferences. -/
def Preferences.none : Preferences :=
  ⟨.none, .none, .none, .none, .none, .none, .none, .none, .none, .none⟩

/-- `VpnProfiles.delete`. -/
def delete (k : Commits) (active : Bool) (id : Text) : Act Unit := do
  editable active
  let profiles ← list k
  result (thrown (require (1 < profiles.length) (txt "Нельзя удалить последний профиль")))
  let rest := profiles.filter (·.id ≠ id)
  result (thrown (require (rest.length < profiles.length) (txt "Failed requirement.")))
  let selected ← current k
  let next ← result
    (if selected.id = id then (rest.head?.map (·.id)).elim (.error .noSuchElement) .ok
    else .ok selected.id)
  write k rest next
  let s ← Command.get
  let _ ← result (thrown (preferences s id))
  Command.modify (Store.editPreferences id fun _ => .none)
  Command.modify fun s => { s with identity := Function.update s.identity id none }

/-- `VpnProfiles.setGlobalApps`. -/
def setGlobalApps (k : Commits) (apps : List Text) : Act Unit :=
  edit k fun s => { s with globalApps := some apps }

/-- `VpnProfiles.setMultiple`. -/
def setMultiple (k : Commits) (active value : Bool) : Act Unit := do
  editable active
  edit k fun s => { s with multiple := some value }

/-- `VpnProfiles.setEnabled`. -/
def setEnabled (k : Commits) (active : Bool) (ids : List Text) : Act Unit := do
  editable active
  edit k fun s => { s with enabled := some ids }

/-- `VpnProfiles.setDnsProfile`. -/
def setDnsProfile (k : Commits) (active : Bool) (id : Text) : Act Unit := do
  editable active
  edit k fun s => { s with dnsProfile := some id }

/-- `VpnProfiles.move`. -/
def move (k : Commits) (active : Bool) (id : Text) (delta : ℤ) : Act Unit := do
  editable active
  let ps ← list k
  let i := ps.findIdx (·.id = id)
  let j := i + delta
  if h : i < ps.length ∧ 0 ≤ j ∧ j.toNat < ps.length then
    let selected ← current k
    write k ((ps.set i ps[j.toNat]).set j.toNat ps[i]) selected.id

/-! ## Distinct ids -/

/-- The ids are distinct, and there are at most 32 profiles. -/
def Good (ps : List Profile) : Prop := (ps.map (·.id)).Nodup ∧ ps.length ≤ 32

/-- The profiles `ps` are stored. -/
def Lists (ps : List Profile) (s : Store) : Prop := s.profiles = some (some ps)

/-- No profiles are stored yet, or good ones. -/
def Inv (s : Store) : Prop := s.profiles = none ∨ ∃ ps, Good ps ∧ Lists ps s

theorem good_initial : Good [initial] := ⟨List.nodup_singleton _, by decide⟩

theorem Inv.good {s : Store} (h : Inv s) : Good s.listed := by
  rcases h with h | ⟨ps, hgood, h⟩
  · rw [Store.listed, h]
    exact good_initial
  · rw [Store.listed, h]
    exact hgood

theorem keeps_check (I : Store → Prop) (value : Bool) (message : Text) :
    Keeps I (check value message) :=
  Triple.ite (fun _ => .pure fun _ h => h) fun _ => .fail fun _ h => h

theorem keeps_result {α : Type} (I : Store → Prop) (r : Except Failure α) :
    Keeps I (result r) := by
  cases r with
  | ok a => exact .pure a
  | error e => exact Triple.fail fun _ h => h

/-- The command does not change the list of profiles that is stored. -/
def Frame {α : Type} (m : Act α) : Prop := ∀ ps, Command.Keeps (Lists ps) m

section Frames

variable {α β : Type}

theorem Frame.pure (a : α) : Frame (Pure.pure a) := fun _ => .pure a

theorem Frame.bind {m : Act α} {f : α → Act β} (hm : Frame m) (hf : ∀ a, Frame (f a)) :
    Frame (m >>= f) := fun ps => (hm ps).bind fun a => hf a ps

theorem Frame.get : Frame Command.get := fun _ => .get

theorem Frame.fail (e : Failure) : Frame (Command.fail e : Act α) := fun _ =>
  Triple.fail fun _ h => h

theorem Frame.modify (f : Store → Store) (hf : ∀ s, (f s).profiles = s.profiles) :
    Frame (Command.modify f) := fun _ => Triple.modify fun s h => (hf s).trans h

theorem Frame.result (r : Except Failure α) : Frame (result r) := fun _ => keeps_result _ r

theorem Frame.check (value : Bool) (message : Text) : Frame (check value message) := fun _ =>
  keeps_check _ value message

theorem Frame.edit (k : Commits) (f : Store → Store) (hf : ∀ s, (f s).profiles = s.profiles) :
    Frame (edit k f) := .bind (.modify f hf) fun _ => .check _ _

/-- A framed command, where the profiles stored are good. -/
theorem Frame.triple {m : Act α} (h : Frame m) {ps : List Profile} (hps : Good ps) :
    Triple (Lists ps) m (fun _ => Lists ps) fun _ => Inv :=
  (h ps).conseq (fun _ h => h) (fun _ _ h => h) fun _ _ h => .inr ⟨ps, hps, h⟩

end Frames

variable {k : Commits}

theorem list_of_none {s : Store} (h : s.profiles = none) : list k s =
    (if k.first then .ok [initial] else .error (.thrown (.illegalState (txt "Check failed."))),
      s.withInitial) := by
  obtain ⟨_, _, _, _, _, _, _, _⟩ := s
  obtain rfl : _ = none := h
  rcases k with ⟨_ | _, _, _⟩ <;> rfl

theorem list_of_lists {ps : List Profile} {s : Store} (h : Lists ps s) : list k s = (.ok ps, s) := by
  obtain ⟨_, _, _, _, _, _, _, _⟩ := s
  obtain rfl : _ = some (some ps) := h
  rfl

theorem list_of_json {s : Store} (h : s.profiles = some none) :
    list k s = (.error .json, s) := by
  obtain ⟨_, _, _, _, _, _, _, _⟩ := s
  obtain rfl : _ = some none := h
  rfl

theorem lists_withInitial {s : Store} (h : s.profiles = none) : Lists [initial] s.withInitial := by
  rw [Lists, Store.withInitial, h]

/-- The list that is read is the one there is. -/
theorem list_spec (R : List Profile → Prop) :
    Triple (fun s => Inv s ∧ R s.listed) (list k)
      (fun ps s => Good ps ∧ R ps ∧ Lists ps s) fun _ => Inv := by
  rintro s ⟨h | ⟨ps, hgood, h⟩, hR⟩
  · rw [Store.listed, h] at hR
    rw [list_of_none h]
    split_ifs
    · exact ⟨good_initial, hR, lists_withInitial h⟩
    · exact .inr ⟨[initial], good_initial, lists_withInitial h⟩
  · rw [Store.listed, h] at hR
    rw [list_of_lists h]
    exact ⟨hgood, hR, h⟩

theorem Frame.list : Frame (list k) := by
  intro ps s h
  rw [list_of_lists h]
  exact h

theorem Frame.current : Frame (current k) := by
  refine .bind .list fun ps => .bind .get fun s => ?_
  split
  · exact .pure _
  · split
    · exact .pure _
    · exact .fail _

theorem write_spec {ps : List Profile} (hps : Good ps) (id : Text) (P : Store → Prop) :
    Triple P (write k ps id) (fun _ => Inv) fun _ => Inv := by
  refine Triple.bind (Q := fun _ => Lists ps) (.modify fun s _ => rfl) fun _ => ?_
  exact ((Frame.check _ _).triple hps).conseq (fun _ h => h)
    (fun _ _ h => .inr ⟨ps, hps, h⟩) fun _ _ h => h

section Operations

variable {α β : Type} {ps : List Profile}

/-- A framed command in an operation that ends with good profiles. -/
theorem Frame.followed {m : Act α} {f : α → Act β} (hm : Frame m) (hps : Good ps)
    (hf : ∀ a, Triple (Lists ps) (f a) (fun _ => Inv) fun _ => Inv) :
    Triple (Lists ps) (m >>= f) (fun _ => Inv) fun _ => Inv :=
  (hm.triple hps).bind hf

/-- A framed command at the end of an operation. -/
theorem Frame.last {m : Act α} (hm : Frame m) (hps : Good ps) :
    Triple (Lists ps) m (fun _ => Inv) fun _ => Inv :=
  (hm.triple hps).conseq (fun _ h => h) (fun _ _ h => .inr ⟨ps, hps, h⟩) fun _ _ h => h

theorem require_followed {value : Prop} [Decidable value] {message : Text} {f : Unit → Act α}
    (hps : Good ps)
    (hf : value → Triple (Lists ps) (f ()) (fun _ => Inv) fun _ => Inv) :
    Triple (Lists ps) (result (thrown (require value message)) >>= f) (fun _ => Inv)
      fun _ => Inv := by
  by_cases hv : value
  · rw [require_of hv]
    exact (Frame.pure ()).followed hps fun _ => hf hv
  · rw [require, if_pos hv]
    refine Triple.bind (Q := fun _ _ => False) ?_ fun _ _ h => h.elim
    exact .fail fun _ h => .inr ⟨ps, hps, h⟩

/-- An operation that lists the profiles, and goes on. -/
theorem list_followed {f : List Profile → Act α} (R : List Profile → Prop)
    (hf : ∀ ps, Good ps → R ps → Triple (Lists ps) (f ps) (fun _ => Inv) fun _ => Inv) :
    Triple (fun s => Inv s ∧ R s.listed) (list k >>= f) (fun _ => Inv) fun _ => Inv := by
  refine Triple.bind (list_spec R) fun ps => ?_
  intro s ⟨hgood, hR, hs⟩
  exact hf ps hgood hR s hs

theorem keeps_list {f : List Profile → Act α}
    (hf : ∀ ps, Good ps → Triple (Lists ps) (f ps) (fun _ => Inv) fun _ => Inv) :
    Keeps Inv (list k >>= f) :=
  .of_imp (fun _ h => ⟨h, trivial⟩) (list_followed (fun _ => True) fun ps hps _ => hf ps hps)

theorem keeps_current : Keeps Inv (current k) := by
  refine keeps_list fun ps hps => (Frame.bind .get fun s => ?_).last hps
  split
  · exact .pure _
  · split
    · exact .pure _
    · exact .fail _

variable {P : Platform} {active : Bool}

/-- A new profile with a new id. -/
theorem create_spec (uuid title : Text) :
    Triple (fun s => Inv s ∧ ∀ p ∈ s.listed, p.id ≠ uuid) (create P k active uuid title)
      (fun _ => Inv) fun _ => Inv := by
  refine Triple.bind (Q := fun _ s => Inv s ∧ ∀ p ∈ s.listed, p.id ≠ uuid)
    ((keeps_check _ _ _).conseq (fun _ h => h) (fun _ _ h => h) fun _ _ h => h.1) fun _ => ?_
  refine list_followed (fun ps => ∀ p ∈ ps, p.id ≠ uuid) fun ps hps hnew => ?_
  refine require_followed hps fun hlt => ?_
  refine (Frame.result _).followed hps fun title => ?_
  refine Frame.get.followed hps fun s => ?_
  refine (Frame.result _).followed hps fun _ => ?_
  refine Frame.followed (.modify _ ?_) hps fun _ => ?_
  · exact fun s => rfl
  refine (Frame.check _ _).followed hps fun _ => ?_
  have hgood : Good (ps ++ [⟨uuid, title⟩]) := by
    constructor
    · rw [List.map_append, List.nodup_append]
      refine ⟨hps.1, List.nodup_singleton _, fun id hid id' hid' => ?_⟩
      obtain ⟨p, hp, rfl⟩ := List.mem_map.1 hid
      rw [List.mem_singleton.1 hid']
      exact hnew p hp
    · rw [List.length_append]
      exact hlt
  exact (write_spec hgood uuid _).bind fun _ => .pure fun _ h => h

theorem keeps_select (id : Text) : Keeps Inv (select k active id) := by
  refine (keeps_check _ _ _).bind fun _ => keeps_list fun ps hps => ?_
  refine Frame.last (.bind (.result _) fun _ => .edit k _ ?_) hps
  exact fun s => rfl

theorem keeps_rename (title : Text) : Keeps Inv (rename P k active title) := by
  refine (keeps_check _ _ _).bind fun _ => keeps_current.bind fun selected => ?_
  refine (keeps_result _ _).bind fun title => keeps_list fun ps hps => write_spec ?_ _ _
  -- The ids stay as they are.
  have hids : (ps.map fun p => if p.id = selected.id then { p with name := title } else p).map
      (·.id) = ps.map (·.id) := by
    rw [List.map_map]
    refine List.map_congr_left fun p _ => ?_
    rw [Function.comp_apply]
    split_ifs <;> rfl
  exact ⟨hids ▸ hps.1, by rw [List.length_map]; exact hps.2⟩

theorem keeps_delete (id : Text) : Keeps Inv (delete k active id) := by
  refine (keeps_check _ _ _).bind fun _ => keeps_list fun ps hps => ?_
  refine require_followed hps fun _ => require_followed hps fun _ => ?_
  refine Frame.current.followed hps fun selected => ?_
  have hrest : Good (ps.filter (·.id ≠ id)) :=
    ⟨hps.1.sublist (List.filter_sublist.map _), (List.length_filter_le _ _).trans hps.2⟩
  refine (Frame.result _).followed hps fun next => ?_
  refine (write_spec hrest next _).bind fun _ => ?_
  -- What follows the change of the list leaves it alone.
  refine Keeps.get.bind fun s => (keeps_result _ _).bind fun _ => ?_
  exact Triple.bind (.modify fun s h => h) fun _ => .modify fun s h => h

theorem keeps_move (id : Text) (delta : ℤ) : Keeps Inv (move k active id delta) := by
  refine (keeps_check _ _ _).bind fun _ => keeps_list fun ps hps => ?_
  dsimp only
  split
  · rename_i h
    refine Frame.current.followed hps fun selected => write_spec ?_ _ _
    -- The profiles are the same ones in another order.
    have hperm := List.set_set_perm h.1 h.2.2
    exact ⟨(hperm.map _).nodup_iff.2 hps.1, hperm.length_eq.trans_le hps.2⟩
  · exact (Frame.pure _).last hps

/-- The calls of the other parts of the app. -/
inductive Op
  | list
  | create (uuid title : Text)
  | select (id : Text)
  | rename (title : Text)
  | delete (id : Text)
  | setGlobalApps (apps : List Text)
  | setMultiple (value : Bool)
  | setEnabled (ids : List Text)
  | setDnsProfile (id : Text)
  | move (id : Text) (delta : ℤ)
  /-- Changes of the preferences and the identities of profiles. -/
  | configure (preferences : Text → Preferences) (identity : Text → Option JSONObject)

/-- What a call does. -/
def Op.run (P : Platform) (k : Commits) (active : Bool) : Op → Act Unit
  | list => do let _ ← VpnProfiles.list k
  | create uuid title => do let _ ← VpnProfiles.create P k active uuid title
  | select id => VpnProfiles.select k active id
  | rename title => VpnProfiles.rename P k active title
  | delete id => VpnProfiles.delete k active id
  | setGlobalApps apps => VpnProfiles.setGlobalApps k apps
  | setMultiple value => VpnProfiles.setMultiple k active value
  | setEnabled ids => VpnProfiles.setEnabled k active ids
  | setDnsProfile id => VpnProfiles.setDnsProfile k active id
  | move id delta => VpnProfiles.move k active id delta
  | configure preferences identity => Command.modify fun s => { s with preferences, identity }

/-- The id made for a new profile is not one of those stored. -/
def Op.Fresh (s : Store) : Op → Prop
  | create uuid _ => ∀ p ∈ s.listed, p.id ≠ uuid
  | _ => True

/-- The app from its installation on; every call is made with some commits that succeed,
    while the VPN is running or not. -/
def app (P : Platform) : System Store (Op × Commits × Bool) where
  init s := s.profiles = none
  step s c s' := c.1.Fresh s ∧ s' = (c.1.run P c.2.1 c.2.2 s).2

theorem Op.keeps {op : Op} {s : Store} (hs : Inv s) (hfresh : op.Fresh s) :
    Inv (op.run P k active s).2 := by
  have hedit : ∀ f : Store → Store, (∀ s, (f s).profiles = s.profiles) →
      Keeps Inv (edit k f) := by
    intro f hf
    refine Triple.bind (Q := fun _ => Inv) (.modify fun s h => ?_) fun _ =>
      keeps_check _ _ _
    exact h.imp (hf s).trans fun ⟨ps, hps, hl⟩ => ⟨ps, hps, (hf s).trans hl⟩
  have hedit' : ∀ f : Store → Store, (∀ s, (f s).profiles = s.profiles) →
      Keeps Inv (do editable active; edit k f) := fun f hf =>
    (keeps_check _ _ _).bind fun _ => hedit f hf
  cases op with
  | list =>
    exact Keeps.snd (keeps_list fun ps hps => (Frame.pure ()).last hps) hs
  | create uuid title =>
    have hspec : Triple (fun s => Inv s ∧ ∀ p ∈ s.listed, p.id ≠ uuid)
        (VpnProfiles.create P k active uuid title) (fun _ => Inv) fun _ => Inv := create_spec uuid title
    have hcreate := hspec.bind (f := fun _ => pure ()) (R := fun _ => Inv)
      fun _ => .pure fun _ h => h
    exact hcreate.snd ⟨hs, hfresh⟩
  | select id => exact (keeps_select id).snd hs
  | rename title => exact (keeps_rename title).snd hs
  | delete id => exact (keeps_delete id).snd hs
  | setGlobalApps apps =>
    refine (hedit _ ?_).snd hs
    exact fun s => rfl
  | setMultiple value =>
    refine (hedit' _ ?_).snd hs
    exact fun s => rfl
  | setEnabled ids =>
    refine (hedit' _ ?_).snd hs
    exact fun s => rfl
  | setDnsProfile id =>
    refine (hedit' _ ?_).snd hs
    exact fun s => rfl
  | move id delta => exact (keeps_move id delta).snd hs
  | configure preferences identity => exact hs

/-- The profiles of an installed app have distinct ids, and there are at most 32. -/
theorem good_of_reachable {s : Store} (h : (app P).Reachable s) : Good s.listed := by
  have hinv : Inv s := by
    refine h.invariant (fun s hs => .inl hs) fun s c s' hs hstep => ?_
    obtain ⟨hfresh, rfl⟩ := hstep
    exact Op.keeps hs hfresh
  exact hinv.good

end Operations

end QuicLab.Android.VpnProfiles
