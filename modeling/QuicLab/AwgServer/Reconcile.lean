import QuicLab.AwgServer.Check
import QuicLab.System

/-!
# Reconciliation of the device

The worker only sends what has changed, and a device takes an allowed IP from one
peer when it gives it to another. The main result is that the peers of the device
are nevertheless exactly those of the enabled users after every `Apply` that
succeeds, whatever the orders of its loops (`reconcile_exact`), and that a rejected
state changes none of them.

The argument rests on what the worker remembers: before and after each `Apply`, the
text remembered for a peer is the one the device's peer was set with (`Mirrors`).
While peers are set this holds of the peers whose remembered text is the wanted
one, as no wanted address is taken from them.
-/

namespace QuicLab.AwgServer

open Go Netip

variable {D : Type*}

/-! ## What the worker remembers -/

variable {dev : Device D}

/-- Setting a peer takes its allowed IPs from the others. -/
theorem Device.Lawful.lookup_peer (hdev : dev.Lawful) {k text : Bytes} {q : DevicePeer}
    (h : TextOf k text q) {d d' : D} (hset : dev.ipcSet text d = (true, d')) (k' : Bytes) :
    (dev.peers d').lookup k' = if k' = k then some q else
      ((dev.peers d).lookup k').map fun r => { r with allowed := r.allowed \ q.allowed } := by
  obtain ⟨pub, psk, address, ip, rfl, rfl, hip, rfl⟩ := h
  rw [hdev.peer hip hset, PeerTable.lookup_set]
  simp only [Finset.sdiff_singleton_eq_erase]

namespace Worker

variable {dev : Device D} {desired : Map Bytes Bytes} {l : List (Bytes × Bytes)} {w w' : Worker D}

theorem ipcSet_eq {text : Bytes} {ok : Bool} {d : D} (h : dev.ipcSet text w.device = (ok, d)) :
    w.ipcSet dev text = (ok, { w with device := d, sent := w.sent ++ [text] }) := by
  rw [ipcSet, h]

/-- The worker after peers not in `desired` were removed, among those in `l`. -/
structure Revoked (dev : Device D) (desired : Map Bytes Bytes) (l : List (Bytes × Bytes))
    (w w' : Worker D) : Prop where
  texts : ∀ k, w'.texts.lookup k =
    if k ∈ l.map Prod.fst ∧ desired.lookup k = none then none else w.texts.lookup k
  peers : ∀ k, (dev.peers w'.device).lookup k =
    if k ∈ l.map Prod.fst ∧ desired.lookup k = none then none else (dev.peers w.device).lookup k
  config : w'.config = w.config
  identity : w'.identity = w.identity
  sent : ∃ new, w'.sent = w.sent ++ new ∧
    ∀ text ∈ new, ∃ pub : Key, desired.lookup (hexEncode pub) = none ∧
      text = removeText (hexEncode pub)

/-- Erasing one more of the keys not in `desired`. -/
theorem lookup_erase_cons {V : Type*} (m : Map Bytes V) {a : Bytes} (keys : List Bytes)
    (h : desired.lookup a = none) (k : Bytes) :
    (if k ∈ keys ∧ desired.lookup k = none then none else (m.erase a).lookup k) =
      if k ∈ a :: keys ∧ desired.lookup k = none then none else m.lookup k := by
  rw [Map.lookup_erase']
  by_cases hk : k = a
  · rw [if_pos hk, ite_self, if_pos ⟨hk ▸ List.mem_cons_self, hk ▸ h⟩]
  · simp only [hk, if_false, List.mem_cons, false_or]

theorem revoke_ok (hdev : dev.Lawful) (hl : ∀ e ∈ l, ∃ pub : Key, e.1 = hexEncode pub)
    (h : w.revoke dev desired l = (none, w')) : Revoked dev desired l w w' := by
  induction l generalizing w with
  | nil =>
    cases h
    exact ⟨fun k => by simp, fun k => by simp, rfl, rfl, [], by simp, by simp⟩
  | cons e l ih =>
    obtain ⟨pub, t⟩ := e
    rw [revoke] at h
    obtain ⟨key, rfl⟩ : ∃ key : Key, pub = hexEncode key := hl _ List.mem_cons_self
    have hl' : ∀ e ∈ l, ∃ pub : Key, e.1 = hexEncode pub := fun e he =>
      hl e (List.mem_cons_of_mem _ he)
    by_cases hgone : desired.lookup (hexEncode key) = none
    · rw [if_pos hgone] at h
      cases hset : dev.ipcSet (removeText (hexEncode key)) w.device with
      | mk ok d =>
        rw [ipcSet_eq hset] at h
        cases ok with
        | false => cases h
        | true =>
          obtain ⟨htexts, hpeers, hconfig, hidentity, new, hsent, hnew⟩ := ih hl' h
          refine ⟨fun k => ?_, fun k => ?_, hconfig, hidentity, removeText (hexEncode key) :: new,
            ?_, ?_⟩
          · exact (htexts k).trans (lookup_erase_cons w.texts _ hgone k)
          · rw [hpeers, hdev.remove hset]
            exact lookup_erase_cons (dev.peers w.device) _ hgone k
          · rw [hsent, List.append_assoc]
            rfl
          · rintro text (_ | ⟨_, htext⟩)
            · exact ⟨key, hgone, rfl⟩
            · exact hnew text htext
    · rw [if_neg hgone] at h
      obtain ⟨htexts, hpeers, hconfig, hidentity, hsent⟩ := ih hl' h
      have hcons : ∀ k, k ∈ ((hexEncode key, t) :: l).map Prod.fst ∧ desired.lookup k = none ↔
          k ∈ l.map Prod.fst ∧ desired.lookup k = none := by
        refine fun k => ⟨fun ⟨hmem, hnone⟩ => ?_, fun h => ⟨List.mem_cons_of_mem _ h.1, h.2⟩⟩
        obtain rfl | hmem := List.mem_cons.1 hmem
        · exact absurd hnone hgone
        · exact ⟨hmem, hnone⟩
      refine ⟨fun k => ?_, fun k => ?_, hconfig, hidentity, hsent⟩
      · simp only [htexts, hcons]
      · simp only [hpeers, hcons]

/-- While peers are set: the device has the peers that are remembered, and those
    remembered with the wanted text are as wanted. -/
structure Consistent (dev : Device D) (desired : Map Bytes Bytes) (w : Worker D) : Prop where
  keys : ∀ k, (dev.peers w.device).lookup k = none ↔ w.texts.lookup k = none
  peer : ∀ k text q, desired.lookup k = some text → TextOf k text q →
    w.texts.lookup k = some text → (dev.peers w.device).lookup k = some q

/-- Setting a wanted peer keeps the others, as its address is not theirs. -/
theorem Consistent.set (hdev : dev.Lawful) (h : Consistent dev desired w)
    (hdesired : Settable desired) {pub text : Bytes} {q : DevicePeer}
    (hwanted : desired.lookup pub = some text) (hq : TextOf pub text q) {d : D}
    (hset : dev.ipcSet text w.device = (true, d)) (sent : List Bytes) :
    Consistent dev desired
      { w with device := d, sent := sent, peers := some (w.texts.insert pub text) } := by
  have hlookup := hdev.lookup_peer hq hset
  refine ⟨fun k => ?_, fun k text' r hk hr hremembered => ?_⟩
  · rw [hlookup, texts, Option.getD_some, Map.lookup_insert']
    split_ifs with heq
    · simp
    · rw [Option.map_eq_none_iff, h.keys]
  · rw [texts, Option.getD_some, Map.lookup_insert'] at hremembered
    rw [hlookup]
    split_ifs at hremembered ⊢ with heq
    · subst heq
      cases hremembered
      rw [hq.unique hr]
    · rw [h.peer k text' r hk hr hremembered, Option.map_some,
        (hdesired.disjoint k pub text' text r q hk hwanted heq hr hq).sdiff_eq_left]

/-- The worker after the peers in `l` were set. -/
structure Installed (dev : Device D) (desired : Map Bytes Bytes) (l : List (Bytes × Bytes))
    (w w' : Worker D) : Prop where
  consistent : Consistent dev desired w'
  texts : ∀ k, w'.texts.lookup k =
    if k ∈ l.map Prod.fst then desired.lookup k else w.texts.lookup k
  config : w'.config = w.config
  identity : w'.identity = w.identity
  sent : ∃ new, w'.sent = w.sent ++ new ∧
    ∀ text ∈ new, ∃ k, desired.lookup k = some text ∧ w.texts.lookup k ≠ some text

/-- Inserting one more of the entries of `desired`. -/
theorem lookup_insert_cons (m : Map Bytes Bytes) {a text : Bytes} (keys : List Bytes)
    (h : desired.lookup a = some text) (k : Bytes) :
    (if k ∈ keys then desired.lookup k else (m.insert a text).lookup k) =
      if k ∈ a :: keys then desired.lookup k else m.lookup k := by
  rw [Map.lookup_insert']
  by_cases hk : k = a
  · rw [if_pos hk, ← h, ← hk, ite_self, if_pos List.mem_cons_self]
  · simp only [hk, if_false, List.mem_cons, false_or]

theorem install_ok (hdev : dev.Lawful) (hdesired : Settable desired)
    (hl : ∀ e ∈ l, desired.lookup e.1 = some e.2) (hw : Consistent dev desired w)
    (h : w.install dev l = (none, w')) : Installed dev desired l w w' := by
  induction l generalizing w with
  | nil =>
    cases h
    exact ⟨hw, fun k => by simp, rfl, rfl, [], by simp, by simp⟩
  | cons e l ih =>
    obtain ⟨pub, text⟩ := e
    rw [install] at h
    have hwanted : desired.lookup pub = some text := hl _ List.mem_cons_self
    have hl' : ∀ e ∈ l, desired.lookup e.1 = some e.2 := fun e he =>
      hl e (List.mem_cons_of_mem _ he)
    by_cases hchanged : w.texts.lookup pub ≠ some text
    · rw [if_pos hchanged] at h
      cases hset : dev.ipcSet text w.device with
      | mk ok d =>
        rw [ipcSet_eq hset] at h
        cases ok with
        | false => cases h
        | true =>
          -- The loop goes on with `pub` remembered and its address taken from the others.
          obtain ⟨q, hq⟩ := hdesired.textOf pub text hwanted
          have hw' := hw.set hdev hdesired hwanted hq hset (w.sent ++ [text])
          obtain ⟨hcons, htexts, hconfig, hidentity, new, hsent, hnew⟩ := ih hl' hw' h
          refine ⟨hcons, fun k => ?_, hconfig, hidentity, text :: new, ?_, ?_⟩
          · exact (htexts k).trans (lookup_insert_cons w.texts _ hwanted k)
          · rw [hsent, List.append_assoc]
            rfl
          · rintro t (_ | ⟨_, ht⟩)
            · exact ⟨pub, hwanted, hchanged⟩
            · -- A text sent later was not the remembered one before `pub` was set either.
              obtain ⟨k, hk, hne⟩ := hnew t ht
              refine ⟨k, hk, fun hsame => hne ?_⟩
              simp only [texts, Option.getD_some, Map.lookup_insert'] at hsame ⊢
              split_ifs with hpub
              · rw [← hk, hpub, hwanted]
              · exact hsame
    · rw [if_neg hchanged] at h
      obtain ⟨hcons, htexts, hconfig, hidentity, hsent⟩ := ih hl' hw h
      refine ⟨hcons, fun k => ?_, hconfig, hidentity, hsent⟩
      refine (htexts k).trans (Eq.trans ?_ (lookup_insert_cons w.texts _ hwanted k))
      rw [Map.lookup_insert']
      split_ifs with hmem hk
      · rfl
      · rw [hk, not_not.1 hchanged]
      · rfl

end Worker

/-! ## One Apply -/

/-- The texts remembered are those the peers of the device were set with. -/
structure Mirrors (dev : Device D) (c : Config) (w : Worker D) : Prop where
  config : w.config = c
  identity : w.identity = [] → w.texts = ∅
  peer : ∀ k, Option.Rel (TextOf k) (w.texts.lookup k) ((dev.peers w.device).lookup k)

/-- The peers and the texts remembered stay, and no text is sent about a peer. -/
structure PeersKept (dev : Device D) (w w' : Worker D) : Prop where
  config : w'.config = w.config
  texts : w'.texts = w.texts
  peers : dev.peers w'.device = dev.peers w.device
  sent : ∃ new, w'.sent = w.sent ++ new ∧ ∀ text ∈ new, ∀ k, ¬ About k text

theorem PeersKept.refl (dev : Device D) (w : Worker D) : PeersKept dev w w :=
  ⟨rfl, rfl, rfl, [], (List.append_nil _).symm, List.forall_mem_nil _⟩

namespace Worker

variable {dev : Device D} {c : Config} {w w' : Worker D}

theorem start_kept (dev : Device D) (now : Time) (w : Worker D) :
    PeersKept dev w (w.start now) ∧ (w.start now).identity = w.identity := by
  rw [start]
  split_ifs with hnil
  · refine ⟨⟨rfl, ?_, rfl, (PeersKept.refl dev w).sent⟩, rfl⟩
    rw [texts, texts, hnil]
    rfl
  · exact ⟨.refl dev w, rfl⟩

/-- The configuration of the server leaves the peers, as there are none yet. -/
theorem identify_kept (hdev : dev.Lawful) (hempty : w.identity = [] → dev.peers w.device = ∅)
    {i : Identity} {e : Option Error} (h : w.identify dev i = (e, w')) :
    PeersKept dev w w' ∧ (e = none → w'.identity ≠ []) ∧ (e ≠ none → w'.identity = w.identity) := by
  rw [identify] at h
  split_ifs at h with hnew hchanged
  · split at h
    · cases h
      exact ⟨.refl dev w, fun h => (nomatch h), fun _ => rfl⟩
    · rename_i key hkey
      cases hset : dev.ipcSet (serverText key (itoa w.config.port) i.parameters) w.device with
      | mk ok d =>
        rw [ipcSet_eq hset] at h
        have hsent : ∀ text ∈ [serverText key (itoa w.config.port) i.parameters], ∀ k,
            ¬ About k text := by
          rintro text (_ | ⟨_, htext⟩) k
          · exact not_about_serverText k _ _ _
          · cases htext
        cases ok with
        | false =>
          cases h
          exact ⟨⟨rfl, rfl, hdev.failed hset, _, rfl, hsent⟩, fun h => (nomatch h), fun _ => rfl⟩
        | true =>
          cases h
          have hpeers : dev.peers d = dev.peers w.device :=
            (hdev.server hset (hempty hnew)).trans (hempty hnew).symm
          refine ⟨⟨rfl, rfl, hpeers, _, rfl, hsent⟩, fun _ hnone => ?_, fun h => absurd rfl h⟩
          -- An empty key is not one of 32 bytes.
          rw [show i.privateKey = [] from hnone] at hkey
          cases hkey
  · cases h
    exact ⟨.refl dev w, fun h => (nomatch h), fun _ => rfl⟩
  · cases h
    exact ⟨.refl dev w, fun _ => hnew, fun h => absurd rfl h⟩

theorem revoke_error {desired : Map Bytes Bytes} {l : List (Bytes × Bytes)} {e : Error}
    (h : w.revoke dev desired l = (some e, w')) : e = .new "cannot revoke AWG peer" := by
  induction l generalizing w with
  | nil => cases h
  | cons x l ih =>
    rw [revoke] at h
    split_ifs at h
    · split at h
      · cases h
        rfl
      · exact ih h
    · exact ih h

theorem install_error {l : List (Bytes × Bytes)} {e : Error}
    (h : w.install dev l = (some e, w')) : e = .new "cannot apply AWG peer" := by
  induction l generalizing w with
  | nil => cases h
  | cons x l ih =>
    rw [install] at h
    split_ifs at h
    · split at h
      · cases h
        rfl
      · exact ih h
    · exact ih h

end Worker

theorem Mirrors.peers_empty {c : Config} {w : Worker D} (h : Mirrors dev c w) (hw : w.texts = ∅) :
    dev.peers w.device = ∅ := by
  refine Finmap.ext_lookup fun k => ?_
  have hk := h.peer k
  rw [hw, Finmap.lookup_empty] at hk
  rw [Finmap.lookup_empty]
  generalize (dev.peers w.device).lookup k = q at hk ⊢
  cases hk
  rfl

theorem PeersKept.trans {w w' w'' : Worker D} (h : PeersKept dev w w') (h' : PeersKept dev w' w'') :
    PeersKept dev w w'' := by
  obtain ⟨new, hnew, habout⟩ := h.sent
  obtain ⟨new', hnew', habout'⟩ := h'.sent
  refine ⟨h'.config.trans h.config, h'.texts.trans h.texts, h'.peers.trans h.peers, new ++ new',
    by rw [hnew', hnew, List.append_assoc], fun text htext => ?_⟩
  exact (List.mem_append.1 htext).elim (habout text) (habout' text)

theorem Mirrors.of_kept {c : Config} {w w' : Worker D} (h : Mirrors dev c w)
    (hk : PeersKept dev w w') (hid : w'.identity = [] → w.identity = []) : Mirrors dev c w' :=
  ⟨hk.config.trans h.config, fun hnone => hk.texts.trans (h.identity (hid hnone)), fun k => by
    rw [hk.texts, hk.peers]
    exact h.peer k⟩

/-- The peers on the device are those of the enabled users, and only what has changed
    was sent. -/
structure Reconciled (dev : Device D) (state : State) (now : Time) (w w' : Worker D) : Prop where
  /-- The peers of the device are those of the enabled users. -/
  peers : ∀ k q, (dev.peers w'.device).lookup k = some q ↔
    ∃ id u p, state.users.lookup id = some u ∧ u.enabledPeer now = some p ∧ p.Installs k q
  /-- Every enabled user has one. -/
  total : ∀ id u, state.users.lookup id = some u → u.enabled now = true →
    ∃ p k q, u.enabledPeer now = some p ∧ p.Installs k q
  /-- Enabled users have different ones. -/
  distinct : ∀ id id' u u' p p' k q q', state.users.lookup id = some u →
    state.users.lookup id' = some u' → u.enabledPeer now = some p → u'.enabledPeer now = some p' →
      p.Installs k q → p'.Installs k q' → id = id'
  /-- The texts remembered are those of the enabled users. -/
  texts : ∀ k text, w'.texts.lookup k = some text ↔
    ∃ id u p, state.users.lookup id = some u ∧ u.enabledPeer now = some p ∧ p.Stanza k text
  /-- No text is sent about a peer that has not changed. -/
  unchanged : ∃ new, w'.sent = w.sent ++ new ∧ ∀ k text, w.texts.lookup k = some text →
    w'.texts.lookup k = some text → ∀ t ∈ new, ¬ About k t

section Apply

variable {dev : Device D} {c : Config} {w w₁ w' : Worker D} {desired : Map Bytes Bytes}

theorem Mirrors.remembered (h : Mirrors dev c w) {k text : Bytes}
    (hk : w.texts.lookup k = some text) :
    ∃ q, TextOf k text q ∧ (dev.peers w.device).lookup k = some q := by
  have hrel := h.peer k
  rw [hk] at hrel
  generalize (dev.peers w.device).lookup k = q at hrel ⊢
  cases hrel with
  | some hq => exact ⟨_, hq, rfl⟩

/-- Once the peers that are not wanted are gone, those remembered with the wanted
    text are as wanted. -/
theorem Mirrors.consistent (h : Mirrors dev c w) {l : List (Bytes × Bytes)}
    (hr : Worker.Revoked dev desired l w w₁) : Worker.Consistent dev desired w₁ := by
  refine ⟨fun k => ?_, fun k text q hk hq hk₁ => ?_⟩
  · rw [hr.peers, hr.texts]
    have hrel := h.peer k
    generalize w.texts.lookup k = t at hrel ⊢
    generalize (dev.peers w.device).lookup k = q at hrel ⊢
    cases hrel with
    | some _ => simp
    | none => simp
  · rw [hr.texts] at hk₁
    split_ifs at hk₁ with hgone
    obtain ⟨q', hq', hlookup⟩ := h.remembered hk₁
    rw [hr.peers, if_neg hgone, hlookup, hq.unique hq']

variable {l l' : List (Bytes × Bytes)}

/-- After both loops the texts remembered are those wanted. -/
theorem Worker.Installed.lookup_texts (hl : Map.IsRange l w.texts) (hl' : Map.IsRange l' desired)
    (hr : Worker.Revoked dev desired l w w₁) (hi : Worker.Installed dev desired l' w₁ w')
    (k : Bytes) :
    w'.texts.lookup k = desired.lookup k := by
  rw [hi.texts]
  split_ifs with hmem
  · rfl
  · have hnone : desired.lookup k = none := by
      refine Option.eq_none_iff_forall_ne_some.2 fun text htext => hmem ?_
      exact List.mem_map.2 ⟨(k, text), hl'.mem_iff.2 htext, rfl⟩
    rw [hr.texts, hnone]
    split_ifs with hgone
    · rfl
    · refine Option.eq_none_iff_forall_ne_some.2 fun text htext => hgone ⟨?_, rfl⟩
      exact List.mem_map.2 ⟨(k, text), hl.mem_iff.2 htext, rfl⟩

/-- Neither loop sends a text about a peer remembered with the wanted text. -/
theorem Mirrors.unchanged (h : Mirrors dev c w) (hdesired : Settable desired)
    (hr : Worker.Revoked dev desired l w w₁) (hi : Worker.Installed dev desired l' w₁ w') :
    ∃ new, w'.sent = w.sent ++ new ∧ ∀ k text, w.texts.lookup k = some text →
      desired.lookup k = some text → ∀ t ∈ new, ¬ About k t := by
  obtain ⟨removed, hremoved, hgone⟩ := hr.sent
  obtain ⟨set, hset, hchanged⟩ := hi.sent
  refine ⟨removed ++ set, by rw [hset, hremoved, List.append_assoc], ?_⟩
  intro k text hk hwanted t ht habout
  obtain ⟨_, ⟨pub, _, _, _, rfl, _⟩, _⟩ := h.remembered hk
  obtain ht | ht := List.mem_append.1 ht
  · -- A removed peer is not wanted.
    obtain ⟨pub', hnone, rfl⟩ := hgone t ht
    have heq := about_removeText
      ((length_hexEncode_key pub).trans (length_hexEncode_key pub').symm) habout
    rw [← heq, hwanted] at hnone
    cases hnone
  · -- A peer is set with its wanted text, if that is not the remembered one.
    obtain ⟨k', hk', hne⟩ := hchanged t ht
    obtain ⟨_, pub', psk, address, ip, rfl, rfl, _⟩ := hdesired.textOf k' t hk'
    have heq := about_peerText
      ((length_hexEncode_key pub).trans (length_hexEncode_key pub').symm) habout
    rw [← heq] at hk' hne
    have htext : text = _ := Option.some.inj (hwanted.symm.trans hk')
    have hkept : w₁.texts.lookup (hexEncode pub) = some text := by
      have hnot : ¬ desired.lookup (hexEncode pub) = none := by simp [hwanted]
      rw [hr.texts, if_neg fun hg => hnot hg.2, hk]
    exact hne (hkept.trans (congrArg some htext))

/-- The loops over the peers bring the device in line with `desired`. -/
theorem Mirrors.loops (hdev : dev.Lawful) (h : Mirrors dev c w) (hid : w.identity ≠ [])
    (hdesired : Settable desired) (hl : Map.IsRange l w.texts) (hl' : Map.IsRange l' desired)
    (hrevoke : w.revoke dev desired l = (none, w₁)) (hinstall : w₁.install dev l' = (none, w')) :
    Mirrors dev c w' ∧ (∀ k, w'.texts.lookup k = desired.lookup k) ∧
      ∃ new, w'.sent = w.sent ++ new ∧ ∀ k text, w.texts.lookup k = some text →
        desired.lookup k = some text → ∀ t ∈ new, ¬ About k t := by
  have hr := Worker.revoke_ok hdev (fun e he => by
    obtain ⟨q, ⟨pub, _, _, _, hpub, _⟩, _⟩ := h.remembered (hl.mem_iff.1 he)
    exact ⟨pub, hpub⟩) hrevoke
  have hi := Worker.install_ok hdev hdesired (fun e he => hl'.mem_iff.1 he)
    (h.consistent hr) hinstall
  have htexts := hi.lookup_texts hl hl' hr
  refine ⟨⟨?_, fun hnone => ?_, fun k => ?_⟩, htexts, h.unchanged hdesired hr hi⟩
  · rw [hi.config, hr.config, h.config]
  · rw [hi.identity, hr.identity] at hnone
    exact absurd hnone hid
  · rw [htexts]
    cases hk : desired.lookup k with
    | none =>
      rw [(hi.consistent.keys k).2 (by rw [htexts, hk])]
      exact .none
    | some text =>
      obtain ⟨q, hq⟩ := hdesired.textOf k text hk
      rw [hi.consistent.peer k text q hk hq (by rw [htexts, hk])]
      exact .some hq

/-- How an `Apply` can go: the stage at which it returns. -/
inductive Applied (dev : Device D) (env : ApplyEnv) (state : State) (w : Worker D) :
    Option Error × Worker D → Prop
  | unprovisioned {e : Error} : Applied dev env state w (some e, w)
  | identity {i : Identity} {e : Error} {w₀ : Worker D}
      (identify : (w.start env.started).identify dev i = (some e, w₀)) :
      Applied dev env state w (some e, w₀)
  | rejected {i : Identity} {e : Error} {w₀ : Worker D}
      (identify : (w.start env.started).identify dev i = (none, w₀)) :
      Applied dev env state w (some e, w₀)
  | revoke {desired : Map Bytes Bytes} {e : Error} {w₀ w₁ : Worker D}
      (revoke : w₀.revoke dev desired env.peers = (some e, w₁)) :
      Applied dev env state w (some e, w₁)
  | install {i : Identity} {desired : Map Bytes Bytes} {w₀ w₁ : Worker D}
      (identify : (w.start env.started).identify dev i = (none, w₀))
      (check : checkUsers (parsePrefix w₀.config.address) env.now env.users [] ∅ = .ok desired)
      (revoke : w₀.revoke dev desired env.peers = (none, w₁)) :
      Applied dev env state w (w₁.install dev env.desired)

theorem applied (dev : Device D) (env : ApplyEnv) (state : State) (w : Worker D) :
    Applied dev env state w (w.apply dev env state) := by
  unfold Worker.apply
  split
  · exact .unprovisioned
  · split
    · rename_i hidentify
      exact .identity hidentify
    · rename_i hidentify
      split
      · exact .rejected hidentify
      · rename_i hcheck
        split
        · rename_i hrevoke
          exact .revoke hrevoke
        · rename_i hrevoke
          exact .install hidentify hcheck hrevoke

/-- The part of an `Apply` before its checks leaves the peers. -/
theorem Mirrors.identified (hdev : dev.Lawful) (h : Mirrors dev c w) {now : Time} {i : Identity}
    {e : Option Error} (hidentify : (w.start now).identify dev i = (e, w')) :
    Mirrors dev c w' ∧ PeersKept dev w w' ∧ (e = none → w'.identity ≠ []) := by
  obtain ⟨hstart, hstartid⟩ := Worker.start_kept dev now w
  have hempty : (w.start now).identity = [] → dev.peers (w.start now).device = ∅ := fun hnone => by
    rw [hstart.peers]
    exact h.peers_empty (h.identity (hstartid ▸ hnone))
  obtain ⟨hkept, hid, hsame⟩ := Worker.identify_kept hdev hempty hidentify
  have hk := hstart.trans hkept
  refine ⟨h.of_kept hk fun hnone => ?_, hk, hid⟩
  by_cases he : e = none
  · exact absurd hnone (hid he)
  · rw [← hstartid, ← hsame he, hnone]

/-- An `Apply` that is rejected leaves the peers. -/
theorem Mirrors.apply_rejected (hdev : dev.Lawful) (h : Mirrors dev c w) {env : ApplyEnv}
    {state : State} {e : Error} (happly : w.apply dev env state = (some e, w'))
    (hrevoke : e ≠ .new "cannot revoke AWG peer") (hinstall : e ≠ .new "cannot apply AWG peer") :
    Mirrors dev c w' ∧ PeersKept dev w w' := by
  have hcases := applied dev env state w
  rw [happly] at hcases
  generalize hres : (some e, w') = res at hcases
  cases hcases with
  | unprovisioned =>
    cases hres
    exact ⟨h, .refl dev w⟩
  | identity hidentify =>
    cases hres
    obtain ⟨hm, hk, _⟩ := h.identified hdev hidentify
    exact ⟨hm, hk⟩
  | rejected hidentify =>
    cases hres
    obtain ⟨hm, hk, _⟩ := h.identified hdev hidentify
    exact ⟨hm, hk⟩
  | revoke hr =>
    cases hres
    exact absurd (Worker.revoke_error hr) hrevoke
  | install _ _ _ => exact absurd (Worker.install_error hres.symm) hinstall

/-- A successful `Apply` brings the device in line with the state. -/
theorem Mirrors.apply_ok (hdev : dev.Lawful) (hc : c.validate = none) (h : Mirrors dev c w)
    {env : ApplyEnv} {state : State} (hr : env.Ranges state w)
    (happly : w.apply dev env state = (none, w')) :
    Mirrors dev c w' ∧ Reconciled dev state env.now w w' := by
  have hcases := applied dev env state w
  rw [happly] at hcases
  generalize hres : (none, w') = res at hcases
  cases hcases with
  | unprovisioned => cases hres
  | identity _ => cases hres
  | rejected _ => cases hres
  | revoke _ => cases hres
  | @install i desired w₀ w₁ hidentify hcheck hrevoke =>
    obtain ⟨hm, hk, hid⟩ := h.identified hdev hidentify
    rw [hm.config] at hcheck
    have hwanted := wanted_of_check hc hcheck
    obtain ⟨hm', htexts, new, hnew, hsame⟩ := hm.loops hdev (hid rfl) hwanted.settable
      (hk.texts ▸ hr.peers) (hr.desired desired (h.config ▸ hcheck)) hrevoke hres.symm
    have hmem : ∀ P : Peer → Prop, (∃ p ∈ enabledPeers env.now env.users, P p) ↔
        ∃ id u p, state.users.lookup id = some u ∧ u.enabledPeer env.now = some p ∧ P p := by
      intro P
      simp only [mem_enabledPeers hr.users]
      exact ⟨fun ⟨p, ⟨id, u, hu, hup⟩, hp⟩ => ⟨id, u, p, hu, hup, hp⟩,
        fun ⟨id, u, p, hu, hup, hp⟩ => ⟨p, ⟨id, u, hu, hup⟩, hp⟩⟩
    refine ⟨hm', fun k q => ?_, fun id u hu hen => ?_, ?_, fun k text => ?_, ?_⟩
    · rw [← hmem]
      exact hwanted.lookup_iff (fun k => htexts k ▸ hm'.peer k) k q
    · have hsome : u.awg.isSome = true := by
        rw [User.enabled, Bool.and_eq_true] at hen
        exact hen.2
      obtain ⟨p, hp⟩ := Option.isSome_iff_exists.1 hsome
      have hup := enabledPeer_eq_some.2 ⟨hen, hp⟩
      obtain ⟨k, _, q, _, hi⟩ := hwanted.installs p
        ((mem_enabledPeers hr.users).2 ⟨id, u, hu, hup⟩)
      exact ⟨p, k, q, hup, hi⟩
    · intro id id' u u' p p' k q q' hu hu' hup hup' hi hi'
      exact hwanted.eq_of_installs hr.users hu hu' hup hup' hi hi'
    · rw [htexts, hwanted.stanza, hmem]
    · -- What is sent before the loops configures the server.
      obtain ⟨before, hbefore, habout⟩ := hk.sent
      refine ⟨before ++ new, by rw [hnew, hbefore, List.append_assoc], ?_⟩
      intro k text hk₀ hk' t ht
      obtain ht | ht := List.mem_append.1 ht
      · exact habout t ht k
      · exact hsame k text (hk.texts ▸ hk₀) (by rw [← htexts, hk']) t ht

end Apply

/-! ## Runs -/

/-- The worker before its first `Apply`. -/
def Worker.initial (c : Config) (d : D) : Worker D := ⟨d, [], c, none, ∅, [], 0⟩

/-- The worker with the configuration `c` on a device without peers, as long as the
    device does not refuse a peer: each `Apply` succeeds, or rejects its state. -/
def Worker.system (dev : Device D) (c : Config) : System (Worker D) (ApplyEnv × State) where
  init w := ∃ d, dev.peers d = ∅ ∧ w = .initial c d
  step w a w' := a.1.Ranges a.2 w ∧ ∃ e, w.apply dev a.1 a.2 = (e, w') ∧
    e ≠ some (.new "cannot revoke AWG peer") ∧ e ≠ some (.new "cannot apply AWG peer")

theorem mirrors_of_reachable (hdev : dev.Lawful) {c : Config} (hc : c.validate = none)
    {w : Worker D} (h : (Worker.system dev c).Reachable w) :
    Mirrors dev c w := by
  refine h.invariant (P := Mirrors dev c) ?_ ?_
  · rintro _ ⟨d, hd, rfl⟩
    refine ⟨rfl, fun _ => rfl, fun k => ?_⟩
    rw [show (Worker.initial c d).device = d from rfl, hd]
    exact .none
  · rintro w ⟨env, state⟩ w' hw ⟨hr, e, happly, hrevoke, hinstall⟩
    cases e with
    | none => exact (hw.apply_ok hdev hc hr happly).1
    | some e =>
      exact (hw.apply_rejected hdev happly (fun h => hrevoke (congrArg some h))
        fun h => hinstall (congrArg some h)).1

/-- Reconciliation is exact. After any `Apply`s of a worker, an `Apply` that succeeds
    leaves the device with the peers of the enabled users and no others, and sends
    nothing about a peer that has not changed; one that rejects its state leaves the
    peers of the device and the texts remembered. -/
theorem reconcile_exact {dev : Device D} (hdev : dev.Lawful) {c : Config} (hc : c.validate = none)
    {w w' : Worker D} (h : (Worker.system dev c).Reachable w) {env : ApplyEnv} {state : State}
    (hr : env.Ranges state w) {e : Option Error} (happly : w.apply dev env state = (e, w')) :
    (e = none → Reconciled dev state env.now w w') ∧
      (e ≠ none → e ≠ some (.new "cannot revoke AWG peer") →
        e ≠ some (.new "cannot apply AWG peer") →
        dev.peers w'.device = dev.peers w.device ∧ w'.texts = w.texts) := by
  have hw := mirrors_of_reachable hdev hc h
  cases e with
  | none => exact ⟨fun _ => (hw.apply_ok hdev hc hr happly).2, fun h => absurd rfl h⟩
  | some e =>
    refine ⟨fun h => (nomatch h), fun _ hrevoke hinstall => ?_⟩
    have hk := (hw.apply_rejected hdev happly (fun h => hrevoke (congrArg some h))
      fun h => hinstall (congrArg some h)).2
    exact ⟨hk.peers, hk.texts⟩

/-! ### A device

A table of peers that reads the texts of the worker, and never fails. -/

/-- The effect of a text on the table. -/
def sampleIpcSet (text : Bytes) (t : PeerTable) : PeerTable :=
  let pub := (text.drop 11).take 64
  let rest := text.drop 75
  if text.take 11 ≠ str "public_key=" then t
  else if rest = str "\nremove=true\n" then t.erase pub
  else
    match parseAddr ((rest.drop 116).take ((rest.drop 116).length - 4)) with
    | some (.v4 ip) => t.set pub ((rest.drop 15).take 64) ip
    | _ => t

/-- The device. -/
def sampleDevice : Device PeerTable := ⟨fun text t => (true, sampleIpcSet text t), id⟩

/-- The parts of a text about a peer. -/
theorem drop_about {pub : Bytes} (hpub : pub.length = 64) (rest : Bytes) :
    ((str "public_key=" ++ (pub ++ rest)).drop 11).take 64 = pub ∧
      (str "public_key=" ++ (pub ++ rest)).drop 75 = rest := by
  have hdrop : (str "public_key=" ++ (pub ++ rest)).drop 11 = pub ++ rest := rfl
  refine ⟨?_, ?_⟩
  · rw [hdrop, List.take_left' hpub]
  · rw [show 75 = 11 + 64 from rfl, ← List.drop_drop, hdrop, List.drop_left' hpub]

/-- The parts of a text that sets a peer, behind its key. -/
theorem drop_shared {psk : Bytes} (hpsk : psk.length = 64) (middle : Bytes) {n : ℕ}
    (hn : 15 + (64 + middle.length) = n) (address : Bytes) {rest : Bytes}
    (hrest : rest = str "\npreshared_key=" ++ (psk ++ (middle ++ (address ++ str "/32\n")))) :
    rest ≠ str "\nremove=true\n" ∧ (rest.drop 15).take 64 = psk ∧
      (rest.drop n).take ((rest.drop n).length - 4) = address := by
  have hdrop : rest.drop 15 = psk ++ (middle ++ (address ++ str "/32\n")) := by rw [hrest]; rfl
  have hallowed : rest.drop n = address ++ str "/32\n" := by
    rw [← hn, ← List.drop_drop, hdrop, ← List.drop_drop, List.drop_left' hpsk, List.drop_left]
  refine ⟨fun h => ?_, by rw [hdrop, List.take_left' hpsk], ?_⟩
  · have hhead : str "\np" = str "\nr" := congrArg (List.take 2) (hrest.symm.trans h)
    exact absurd hhead (by decide)
  · rw [hallowed]
    exact List.take_left' (by rw [List.length_append]; rfl)

theorem sampleIpcSet_peerText {pub psk : Bytes} (hpub : pub.length = 64) (hpsk : psk.length = 64)
    {address : Bytes} {ip : BitVec 32} (hip : parseAddr address = some (.v4 ip)) (t : PeerTable) :
    sampleIpcSet (peerText pub psk address) t = t.set pub psk ip := by
  have hkey : (peerText pub psk address).take 11 = str "public_key=" := rfl
  obtain ⟨htake, hdrop⟩ := drop_about hpub _
  obtain ⟨hset, hshared, haddress⟩ := drop_shared hpsk
    (str "\nreplace_allowed_ips=true\nallowed_ip=") (n := 116) (by decide) address rfl
  rw [sampleIpcSet, if_neg (not_not.2 hkey), peerText, htake, hdrop, if_neg hset, haddress, hip,
    hshared]

theorem sampleIpcSet_removeText {pub : Bytes} (hpub : pub.length = 64) (t : PeerTable) :
    sampleIpcSet (removeText pub) t = t.erase pub := by
  obtain ⟨htake, hdrop⟩ := drop_about hpub (str "\nremove=true\n")
  have hkey : (removeText pub).take 11 = str "public_key=" := rfl
  rw [sampleIpcSet, if_neg (not_not.2 hkey), removeText, htake, hdrop, if_pos rfl]

theorem sampleDevice_lawful : sampleDevice.Lawful where
  failed h := nomatch h
  server h hempty := by
    cases h
    exact hempty
  peer {pub psk _ _ _ _} hip h := by
    cases h
    exact sampleIpcSet_peerText (length_hexEncode_key pub) (length_hexEncode_key psk) hip _
  remove {pub _ _} h := by
    cases h
    exact sampleIpcSet_removeText (length_hexEncode_key pub) _

/-- A state with one enabled user. -/
def sampleState : State where
  awg := some ⟨base64Encode (sampleKey 1), base64Encode (sampleKey 2), [5, 6, 7, 8]⟩
  users := Finmap.insert (str "id") ⟨str "id", false, some [str "awg"], 1,
    some ⟨base64Encode (sampleKey 3), base64Encode (sampleKey 4), base64Encode (sampleKey 5),
      str "10.8.0.2"⟩⟩ ∅

/-- The orders of its first `Apply`. -/
def sampleEnv : ApplyEnv where
  started := 0
  now := 0
  users := [(str "id", ⟨str "id", false, some [str "awg"], 1,
    some ⟨base64Encode (sampleKey 3), base64Encode (sampleKey 4), base64Encode (sampleKey 5),
      str "10.8.0.2"⟩⟩)]
  peers := []
  desired := [(hexEncode (sampleKey 4),
    peerText (hexEncode (sampleKey 4)) (hexEncode (sampleKey 5)) (str "10.8.0.2"))]

theorem sampleEnv_ranges (d : PeerTable) :
    sampleEnv.Ranges sampleState (Worker.initial sampleConfig d) where
  users := rfl
  peers := rfl
  desired desired h := by
    have hok : checkUsers (parsePrefix sampleConfig.address) sampleEnv.now sampleEnv.users [] ∅ =
      .ok (Finmap.insert (hexEncode (sampleKey 4)) (peerText (hexEncode (sampleKey 4))
        (hexEncode (sampleKey 5)) (str "10.8.0.2")) ∅) := rfl
    cases h.symm.trans hok
    rfl

/-- The user of the state is the peer of the device. -/
theorem reconcile_exact_one : ∃ w',
    (Worker.initial sampleConfig ∅).apply sampleDevice sampleEnv sampleState = (none, w') ∧
      Reconciled sampleDevice sampleState 0 (Worker.initial sampleConfig ∅) w' := by
  have hok : (Worker.initial sampleConfig ∅).apply sampleDevice sampleEnv sampleState =
    (none, _) := rfl
  exact ⟨_, hok, (reconcile_exact sampleDevice_lawful rfl (.init ⟨∅, rfl, rfl⟩)
    (sampleEnv_ranges ∅) hok).1 rfl⟩

end QuicLab.AwgServer
