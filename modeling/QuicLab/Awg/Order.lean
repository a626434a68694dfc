import Mathlib.Data.List.Perm.Basic
import QuicLab.Awg.Config

/-!
# The order of the lines

`Parse` reads a text line by line, and stops at the first line that it refuses. What it
accepts, and what it makes of it, does not depend on this order.

* `Update`: what a field does to the configuration, and `update`, which one it is. It
  depends on the section, the name and the value only, as long as there is no address
  before the field `Address` (`toOption_field`);
* `Update.comm`: updates of different fields commute;
* `toOption_lines`: the lines of a section are accepted if each of them is, and if their
  fields are new and distinct, and the configuration is then updated by each of them;
* `parse_sections`: the same for the text of both sections, in either order.

`parse_order` draws the conclusion.
-/

namespace QuicLab.Awg

open Go Netip

/-! ## Updates -/

/-- What a field sets. -/
inductive Update
  | privateKey (s : Bytes)
  | publicKey (s : Bytes)
  | psk (s : Bytes)
  | address (a : Bytes) (ipv6 : Bool)
  | dns (s : Bytes)
  | mtu (n : ℤ)
  | endpoint (s : Bytes)
  | allowed (l : List Bytes) (ipv6 : Bool)
  | keepalive (s : Bytes)
  | param (k v : Bytes)

namespace Update

/-- The configuration with the field set. -/
def apply (c : Config) : Update → Config
  | privateKey s => { c with privateKey := s }
  | publicKey s => { c with publicKey := s }
  | psk s => { c with psk := s }
  | address a ipv6 => { c with address := a, ipv6Ignored := c.ipv6Ignored || ipv6 }
  | dns s => { c with dns := s }
  | mtu n => { c with mtu := n }
  | endpoint s => { c with endpoint := s }
  | allowed l ipv6 => { c with allowed := c.allowed ++ l, ipv6Ignored := c.ipv6Ignored || ipv6 }
  | keepalive s => { c with keepalive := s }
  | param k v => { c with params := c.params.insert (toLower k) v }

/-- The section and the name of the field. -/
def tag : Update → Bytes
  | privateKey _ => str "[Interface]PrivateKey"
  | publicKey _ => str "[Peer]PublicKey"
  | psk _ => str "[Peer]PresharedKey"
  | address _ _ => str "[Interface]Address"
  | dns _ => str "[Interface]DNS"
  | mtu _ => str "[Interface]MTU"
  | endpoint _ => str "[Peer]Endpoint"
  | allowed _ _ => str "[Peer]AllowedIPs"
  | keepalive _ => str "[Peer]PersistentKeepalive"
  | param k _ => str "[Interface]" ++ k

/-- The parameters are those that there are. -/
def Known : Update → Prop
  | param k _ => k ∈ Config.paramBounds.map Prod.fst
  | _ => True

/-- The names of the parameters differ also in lower case. -/
theorem toLower_injOn : ∀ k ∈ Config.paramBounds.map Prod.fst,
    ∀ k' ∈ Config.paramBounds.map Prod.fst, toLower k = toLower k' → k = k' := by decide

/-- Updates of different fields commute. -/
theorem comm {u u' : Update} (hu : u.Known) (hu' : u'.Known) (hne : u.tag ≠ u'.tag) (c : Config) :
    u'.apply (u.apply c) = u.apply (u'.apply c) := by
  cases u <;> cases u' <;> first | rfl | exact absurd rfl hne | skip
  -- Two of them set `IPv6Ignored` together.
  case address.allowed a ipv6 l ipv6' =>
    simp only [apply, Bool.or_right_comm]
  case allowed.address l ipv6 a ipv6' =>
    simp only [apply, Bool.or_right_comm]
  case param.param k v k' v' =>
    have hlower : toLower k' ≠ toLower k := by
      intro h
      rw [toLower_injOn k' hu' k hu h] at hne
      exact hne rfl
    simp only [apply, Finmap.insert_insert_of_ne _ hlower]

end Update

/-- What the field `k` with the value `v` sets, if it is accepted: what comes of it from the
    empty configuration. -/
def update (sect k v : Bytes) : Option Update :=
  let tag := sect ++ k
  if tag = str "[Interface]PrivateKey" then (Config.key k v).toOption.map .privateKey
  else if tag = str "[Peer]PublicKey" then (Config.key k v).toOption.map .publicKey
  else if tag = str "[Peer]PresharedKey" then (Config.key k v).toOption.map .psk
  else if tag = str "[Interface]Address" then
    ((split v (ascii ',')).foldlM Config.addAddress .empty).toOption.map fun c =>
      .address c.address c.ipv6Ignored
  else if tag = str "[Interface]DNS" then
    (Config.empty.setDNS v).toOption.map fun c => .dns c.dns
  else if tag = str "[Interface]MTU" then
    (Config.empty.setMTU v).toOption.map fun c => .mtu c.mtu
  else if tag = str "[Peer]Endpoint" then
    (Config.empty.setEndpoint v).toOption.map fun c => .endpoint c.endpoint
  else if tag = str "[Peer]AllowedIPs" then
    ((split v (ascii ',')).foldlM Config.addAllowed .empty).toOption.map fun c =>
      .allowed c.allowed c.ipv6Ignored
  else if tag = str "[Peer]PersistentKeepalive" then
    (Config.empty.setKeepalive v).toOption.map fun c => .keepalive c.keepalive
  else
    (Config.empty.setParam sect k v).toOption.bind fun c =>
      (c.params.lookup (toLower k)).map (.param k)

namespace Config

/-- The addresses of a line do not depend on the rest of the configuration. -/
theorem foldlM_addAddress (c : Config) (hc : c.address = []) (l : List Bytes) :
    l.foldlM addAddress c =
      (fun d => (Update.address d.address d.ipv6Ignored).apply c) <$> l.foldlM addAddress empty := by
  have hstart : c = (Update.address empty.address empty.ipv6Ignored).apply c := by
    simp only [Update.apply, empty, Bool.or_false, ← hc]
  conv_lhs => rw [hstart]
  refine foldlM_map (fun d => (Update.address d.address d.ipv6Ignored).apply c) (fun d s => ?_) empty l
  simp only [addAddress, Update.apply]
  split
  · rfl
  · rename_i a _
    by_cases h4 : a.addr.is4 = true
    · by_cases hd : d.address = []
      · simp [h4, hd]
      · simp [h4, hd]
    · simp [h4]

theorem foldlM_addAllowed_apply (c : Config) (l : List Bytes) :
    l.foldlM addAllowed c =
      (fun d => (Update.allowed d.allowed d.ipv6Ignored).apply c) <$> l.foldlM addAllowed empty := by
  have hstart : c = (Update.allowed empty.allowed empty.ipv6Ignored).apply c := by
    simp only [Update.apply, empty, Bool.or_false, List.append_nil]
  conv_lhs => rw [hstart]
  refine foldlM_map (fun d => (Update.allowed d.allowed d.ipv6Ignored).apply c) (fun d s => ?_) empty l
  simp only [addAllowed]
  split
  · rfl
  · split_ifs
    · simp [Update.apply]
    · simp [Update.apply]

theorem toOption_setEndpoint (c : Config) (v : Bytes) :
    (c.setEndpoint v).toOption =
      ((empty.setEndpoint v).toOption.map fun d => Update.endpoint d.endpoint).map
        fun u => u.apply c := by
  simp only [setEndpoint]
  split
  · rfl
  · split
    · rfl
    · split_ifs <;> rfl

theorem toOption_setParam (c : Config) (sect k v : Bytes) :
    (c.setParam sect k v).toOption =
      ((empty.setParam sect k v).toOption.bind fun d =>
        (d.params.lookup (toLower k)).map (Update.param k)).map fun u => u.apply c := by
  simp only [setParam]
  split
  · rfl
  · split
    · rfl
    · split_ifs
      · rfl
      · simp [Except.toOption, Update.apply]

/-- A field does to the configuration what its update says. -/
theorem toOption_field (c : Config) (sect k v : Bytes)
    (hc : sect ++ k = str "[Interface]Address" → c.address = []) :
    (c.field sect k v).toOption = (update sect k v).map fun u => u.apply c := by
  have hkey : ∀ (e : Bytes → Update), ((fun s => (e s).apply c) <$> key k v).toOption =
      ((key k v).toOption.map e).map fun u => u.apply c := by
    intro e
    cases key k v <;> rfl
  unfold field update
  dsimp only
  split_ifs with h₁ h₂ h₃ h₄ h₅ h₆ h₇ h₈ h₉
  · exact hkey .privateKey
  · exact hkey .publicKey
  · exact hkey .psk
  · rw [foldlM_addAddress c (hc h₄)]
    cases (split v (ascii ',')).foldlM addAddress empty <;> rfl
  · simp only [setDNS]
    split <;> rfl
  · simp only [setMTU]
    split
    · rfl
    · split_ifs <;> rfl
  · exact c.toOption_setEndpoint v
  · rw [foldlM_addAllowed_apply]
    cases (split v (ascii ',')).foldlM addAllowed empty <;> rfl
  · simp only [setKeepalive]
    split <;> rfl
  · exact c.toOption_setParam sect k v

end Config

theorem tag_update {sect k v : Bytes} {u : Update} (h : update sect k v = some u) :
    u.tag = sect ++ k ∧ u.Known := by
  unfold update at h
  dsimp only at h
  split_ifs at h with h₁ h₂ h₃ h₄ h₅ h₆ h₇ h₈ h₉
  -- The parameters are the fields that are left.
  case neg =>
    simp only [Config.setParam] at h
    split at h
    · cases h
    · rename_i bound hbound
      split_ifs at hbound with hsect
      obtain ⟨c, -, hc⟩ := Option.bind_eq_some_iff.1 h
      obtain ⟨s, -, rfl⟩ := Option.map_eq_some_iff.1 hc
      refine ⟨by rw [Update.tag, hsect], List.mem_map.2 ⟨(k, bound), ?_, rfl⟩⟩
      obtain ⟨l, l', hl, -⟩ := List.lookup_eq_some_iff.1 hbound
      rw [hl]
      simp
  all_goals
    obtain ⟨_, -, rfl⟩ := Option.map_eq_some_iff.1 h
    exact ⟨Eq.symm ‹_›, trivial⟩

/-! ## Lines -/

/-- A line without its comment. -/
def content (line : Bytes) : Bytes := trimSpace (line.takeWhile (· ≠ ascii '#'))

/-- The header of a section. -/
def IsHeader (line : Bytes) : Prop :=
  content line = str "[Interface]" ∨ content line = str "[Peer]"

/-- What a line that is no header sets, if it is accepted: nothing, if it is empty. -/
def entry (sect line : Bytes) : Option (List Update) :=
  if content line = [] then some []
  else if (content line).head? = some (ascii '[') then none
  else
    match cut (content line) (ascii '=') with
    | none => none
    | some (k, v) => (update sect (trimSpace k) (trimSpace v)).map ([·])

/-- What the lines of a section set. -/
def updates (sect : Bytes) (lines : List Bytes) : List Update :=
  lines.flatMap fun l => (entry sect l).getD []

theorem updates_cons {sect line : Bytes} {us : List Update} (h : entry sect line = some us)
    (lines : List Bytes) : updates sect (line :: lines) = us ++ updates sect lines := by
  rw [updates, List.flatMap_cons, h, Option.getD_some, updates]

/-- All updates, one after another. -/
def Config.applyAll (c : Config) (us : List Update) : Config := us.foldl Update.apply c

namespace Parser

/-- The state after some updates. -/
def extend (st : Parser) (us : List Update) : Parser :=
  { st with
    config := st.config.applyAll us
    seen := (us.map Update.tag).reverse ++ st.seen }

/-- There is no address yet, unless the field has been seen. -/
def Fresh (st : Parser) : Prop := str "[Interface]Address" ∈ st.seen ∨ st.config.address = []

theorem toOption_line {st : Parser} (hsect : st.sect ≠ []) (hst : st.Fresh) {line : Bytes}
    (hline : ¬ IsHeader line) :
    (st.line line).toOption =
      (entry st.sect line).bind fun us =>
        if ∀ u ∈ us, u.tag ∉ st.seen then some (st.extend us) else none := by
  have hbody : st.line line =
      if content line = [] then .ok st
      else if (content line).head? = some (ascii '[') then .error (.new "unsupported AWG section")
      else st.assign (content line) := by
    rw [IsHeader, not_or] at hline
    unfold Parser.line
    dsimp only
    rw [← content, if_pos hline]
  rw [hbody, entry]
  by_cases hempty : content line = []
  · simp [hempty, extend, Config.applyAll, Except.toOption]
  rw [if_neg hempty, if_neg hempty]
  by_cases hhead : (content line).head? = some (ascii '[')
  · rw [if_pos hhead, if_pos hhead]
    rfl
  rw [if_neg hhead, if_neg hhead, assign]
  cases hcut : cut (content line) (ascii '=') with
  | none => rfl
  | some kv =>
    obtain ⟨k, v⟩ := kv
    dsimp only
    rw [if_neg hsect]
    by_cases hseen : st.sect ++ trimSpace k ∈ st.seen
    · rw [if_pos hseen]
      cases hu : update st.sect (trimSpace k) (trimSpace v) with
      | none => rfl
      | some u =>
        have hmem : u.tag ∈ st.seen := (tag_update hu).1 ▸ hseen
        simp [hmem, Except.toOption]
    · rw [if_neg hseen]
      have hfield := st.config.toOption_field st.sect (trimSpace k) (trimSpace v) fun htag =>
        hst.resolve_left (htag ▸ hseen)
      rw [toOption_map, hfield]
      cases hu : update st.sect (trimSpace k) (trimSpace v) with
      | none => rfl
      | some u => simp [(tag_update hu).1, hseen, extend, Config.applyAll]

/-- A line sets at most one field, of the section. -/
theorem entry_cases {sect line : Bytes} {us : List Update} (h : entry sect line = some us) :
    us = [] ∨ ∃ u, us = [u] ∧ (∃ k, u.tag = sect ++ k) ∧ u.Known := by
  unfold entry at h
  split_ifs at h
  · exact .inl (Option.some.inj h).symm
  · split at h
    · cases h
    · rename_i k v _
      obtain ⟨u, hu, rfl⟩ := Option.map_eq_some_iff.1 h
      obtain ⟨htag, hknown⟩ := tag_update hu
      exact .inr ⟨u, rfl, ⟨_, htag⟩, hknown⟩

theorem extend_extend (st : Parser) (us us' : List Update) :
    (st.extend us).extend us' = st.extend (us ++ us') := by
  simp [extend, Config.applyAll]

theorem Fresh.extend {st : Parser} (h : st.Fresh) (us : List Update) : (st.extend us).Fresh := by
  induction us generalizing st with
  | nil => exact h
  | cons u us ih =>
    have hone : (st.extend [u]).Fresh := by
      rcases h with h | h
      · exact .inl (List.mem_append_right _ h)
      · cases u with
        | address a ipv6 => exact .inl List.mem_cons_self
        | _ => exact .inr h
    rw [← List.singleton_append, ← extend_extend]
    exact ih hone

/-- The lines are accepted: each of them, and their fields are new and distinct. -/
def Accepted (st : Parser) (lines : List Bytes) : Prop :=
  (∀ l ∈ lines, (entry st.sect l).isSome) ∧ ((updates st.sect lines).map Update.tag).Nodup ∧
    ∀ u ∈ updates st.sect lines, u.tag ∉ st.seen

theorem accepted_cons {st : Parser} {line : Bytes} {us : List Update}
    (h : entry st.sect line = some us) (lines : List Bytes) :
    st.Accepted (line :: lines) ↔
      (∀ u ∈ us, u.tag ∉ st.seen) ∧ (st.extend us).Accepted lines := by
  have hnodup : (us.map Update.tag).Nodup := by
    rcases entry_cases h with rfl | ⟨u, rfl, -⟩
    · exact List.nodup_nil
    · exact List.nodup_singleton _
  have hsect : (st.extend us).sect = st.sect := rfl
  rw [Accepted, Accepted, hsect, updates_cons h]
  simp only [List.mem_cons, forall_eq_or_imp, h, Option.isSome_some, true_and, List.map_append,
    List.nodup_append, hnodup, List.mem_append, extend, List.mem_reverse, not_or]
  constructor
  · rintro ⟨hall, ⟨hnodup', hdisjoint⟩, hseen⟩
    refine ⟨fun u hu => hseen u (.inl hu), hall, hnodup', fun v hv => ⟨fun hmem => ?_, ?_⟩⟩
    · exact hdisjoint _ hmem _ (List.mem_map_of_mem hv) rfl
    · exact hseen v (.inr hv)
  · rintro ⟨hus, hall, hnodup', hvs⟩
    refine ⟨hall, ⟨hnodup', fun t ht t' ht' heq => ?_⟩, fun u hu => ?_⟩
    · obtain ⟨v, hv, rfl⟩ := List.mem_map.1 ht'
      exact (hvs v hv).1 (heq ▸ ht)
    · rcases hu with hu | hu
      · exact hus u hu
      · exact (hvs u hu).2

open Classical in
/-- The lines of a section do what their updates say. -/
theorem toOption_lines {st : Parser} (hsect : st.sect ≠ []) (hst : st.Fresh) {lines : List Bytes}
    (hlines : ∀ l ∈ lines, ¬ IsHeader l) :
    (lines.foldlM Parser.line st).toOption =
      if st.Accepted lines then some (st.extend (updates st.sect lines)) else none := by
  induction lines generalizing st with
  | nil =>
    rw [if_pos ⟨List.forall_mem_nil _, List.nodup_nil,
      List.forall_mem_nil _⟩]
    rfl
  | cons line lines ih =>
    rw [List.foldlM_cons, toOption_bind, toOption_line hsect hst (hlines line List.mem_cons_self)]
    have hlines' : ∀ l ∈ lines, ¬ IsHeader l := fun l hl => hlines l (List.mem_cons_of_mem _ hl)
    cases hentry : entry st.sect line with
    | none =>
      rw [if_neg]
      · rfl
      · rintro ⟨hall, -⟩
        have := hall line List.mem_cons_self
        rw [hentry] at this
        cases this
    | some us =>
      rw [Option.bind_some]
      by_cases hseen : ∀ u ∈ us, u.tag ∉ st.seen
      · have hih := @ih (st.extend us) hsect (hst.extend us) hlines'
        rw [if_pos hseen, Option.bind_some, hih, extend_extend]
        have hiff := accepted_cons hentry lines
        by_cases hacc : (st.extend us).Accepted lines
        · rw [if_pos hacc, if_pos (hiff.2 ⟨hseen, hacc⟩), updates_cons hentry]
          rfl
        · rw [if_neg hacc, if_neg fun h => hacc (hiff.1 h).2]
      · rw [if_neg hseen, if_neg fun h => hseen ((accepted_cons hentry lines).1 h).1]
        rfl

end Parser

/-! ## Texts -/

/-- The names of the two sections, in some order. -/
def Sections (s s' : Bytes) : Prop :=
  s = str "[Interface]" ∧ s' = str "[Peer]" ∨ s = str "[Peer]" ∧ s' = str "[Interface]"

/-- The text of two sections. -/
def sectionsText (s : Bytes) (A : List Bytes) (s' : Bytes) (B : List Bytes) : Bytes :=
  join (s :: A ++ s' :: B) (str "\n")

/-- A line of a text that is not the header of a section. -/
def IsLine (l : Bytes) : Prop := ascii '\n' ∉ l ∧ ¬ IsHeader l

/-- The text of two sections is accepted line by line. -/
def TextAccepted (s : Bytes) (A : List Bytes) (s' : Bytes) (B : List Bytes) : Prop :=
  (∀ l ∈ A, (entry s l).isSome) ∧ (∀ l ∈ B, (entry s' l).isSome) ∧
    ((updates s A ++ updates s' B).map Update.tag).Nodup

section

variable {s s' : Bytes} {A B : List Bytes}

theorem Sections.symm (h : Sections s s') : Sections s' s :=
  (Or.symm h).imp And.symm And.symm

theorem split_sectionsText (hs : Sections s s') (hA : ∀ l ∈ A, IsLine l) (hB : ∀ l ∈ B, IsLine l) :
    split (sectionsText s A s' B) (ascii '\n') = s :: A ++ s' :: B := by
  refine split_join (List.cons_ne_nil _ _) fun l hl => ?_
  rw [List.cons_append, List.mem_cons, List.mem_append, List.mem_cons] at hl
  rcases hl with rfl | hl | rfl | hl
  · rcases hs with ⟨rfl, -⟩ | ⟨rfl, -⟩ <;> decide
  · exact (hA l hl).1
  · rcases hs with ⟨-, rfl⟩ | ⟨-, rfl⟩ <;> decide
  · exact (hB l hl).1

open Classical in
/-- What `Parse` makes of the text of two sections. -/
theorem parse_sections (hs : Sections s s') (hA : ∀ l ∈ A, IsLine l) (hB : ∀ l ∈ B, IsLine l)
    (hlen : (sectionsText s A s' B).length ≤ 32768) :
    (parse (sectionsText s A s' B)).toOption =
      if TextAccepted s A s' B then
        (Config.empty.applyAll (updates s A ++ updates s' B)).finish.toOption
      else none := by
  have hheader : s = str "[Interface]" ∨ s = str "[Peer]" := hs.imp And.left And.left
  have hheader' : s' = str "[Interface]" ∨ s' = str "[Peer]" := hs.symm.imp And.left And.left
  have hne : s ≠ [] ∧ s' ≠ [] ∧ s' ≠ s := by
    rcases hs with ⟨rfl, rfl⟩ | ⟨rfl, rfl⟩ <;> decide
  -- The states after the two headers.
  let st₁ : Parser := ⟨.empty, s, [], [s]⟩
  let st₂ : Parser := { st₁.extend (updates s A) with sect := s', sections := [s', s] }
  have h₁ : Parser.start.line s = .ok st₁ := Parser.line_section hheader (by simp [Parser.start])
  have h₂ : (st₁.extend (updates s A)).line s' = .ok st₂ :=
    Parser.line_section hheader' (by simpa [Parser.extend, st₁] using hne.2.2)
  have hfresh : st₁.Fresh := .inr rfl
  have hlines₁ := Parser.toOption_lines hne.1 hfresh fun l hl => (hA l hl).2
  have hlines₂ := @Parser.toOption_lines st₂ hne.2.1 (hfresh.extend _) B fun l hl => (hB l hl).2
  have hiff : TextAccepted s A s' B ↔ st₁.Accepted A ∧ st₂.Accepted B := by
    simp only [TextAccepted, Parser.Accepted, st₁, st₂, Parser.extend, List.map_append,
      List.nodup_append, List.append_nil, List.mem_reverse, List.not_mem_nil]
    constructor
    · rintro ⟨hall, hall', hnodup, hnodup', hdisjoint⟩
      refine ⟨⟨hall, hnodup, fun _ _ h => h⟩, hall', hnodup', fun u hu hmem => ?_⟩
      exact hdisjoint _ hmem _ (List.mem_map_of_mem hu) rfl
    · rintro ⟨⟨hall, hnodup, -⟩, hall', hnodup', hnew⟩
      refine ⟨hall, hall', hnodup, hnodup', fun t ht t' ht' heq => ?_⟩
      obtain ⟨u, hu, rfl⟩ := List.mem_map.1 ht'
      exact hnew u hu (heq ▸ ht)
  rw [parse, if_neg (not_lt.2 hlen), split_sectionsText hs hA hB, List.cons_append,
    foldlM_cons_of_ok h₁, List.foldlM_append, toOption_bind, toOption_bind, hlines₁]
  by_cases hacc₁ : st₁.Accepted A
  · rw [if_pos hacc₁, Option.bind_some, foldlM_cons_of_ok h₂, hlines₂]
    by_cases hacc₂ : st₂.Accepted B
    · rw [if_pos hacc₂, if_pos (hiff.2 ⟨hacc₁, hacc₂⟩), Option.bind_some]
      congr 2
      exact (List.foldl_append ..).symm
    · rw [if_neg hacc₂, if_neg fun h => hacc₂ (hiff.1 h).2]
      rfl
  · rw [if_neg hacc₁, if_neg fun h => hacc₁ (hiff.1 h).1]
    rfl

end

/-- The order of the updates does not matter. -/
theorem applyAll_perm {us us' : List Update} (h : us.Perm us') (hknown : ∀ u ∈ us, u.Known)
    (hnodup : (us.map Update.tag).Nodup) (c : Config) : c.applyAll us = c.applyAll us' := by
  refine h.foldl_eq' (fun u hu u' hu' c => ?_) c
  by_cases htag : u.tag = u'.tag
  · rw [List.inj_on_of_nodup_map hnodup hu hu' htag]
  · exact Update.comm (hknown u hu) (hknown u' hu') htag c

theorem known_updates {sect : Bytes} {lines : List Bytes} {u : Update}
    (h : u ∈ updates sect lines) : u.Known := by
  obtain ⟨l, -, hu⟩ := List.mem_flatMap.1 h
  cases hentry : entry sect l with
  | none =>
    rw [hentry] at hu
    cases hu
  | some us =>
    rw [hentry, Option.getD_some] at hu
    rcases Parser.entry_cases hentry with rfl | ⟨v, rfl, -, hknown⟩
    · cases hu
    · rwa [List.mem_singleton.1 hu]

section

variable {s s' : Bytes} {A B A' B' : List Bytes}

theorem textAccepted_perm (hA : A.Perm A') (hB : B.Perm B') (h : TextAccepted s A s' B) :
    TextAccepted s A' s' B' := by
  refine ⟨fun l hl => h.1 l (hA.mem_iff.2 hl), fun l hl => h.2.1 l (hB.mem_iff.2 hl), ?_⟩
  have hperm := (hA.flatMap_right fun l => (entry s l).getD []).append
    (hB.flatMap_right fun l => (entry s' l).getD [])
  exact (hperm.map Update.tag).nodup_iff.1 h.2.2

theorem textAccepted_symm (h : TextAccepted s A s' B) : TextAccepted s' B s A :=
  ⟨h.2.1, h.1, (List.perm_append_comm.map Update.tag).nodup_iff.1 h.2.2⟩

theorem length_sectionsText_perm (hA : A.Perm A') (hB : B.Perm B') :
    (sectionsText s A s' B).length = (sectionsText s A' s' B').length :=
  length_join_perm ((hA.cons s).append (hB.cons s')) _

theorem length_sectionsText_symm (s : Bytes) (A : List Bytes) (s' : Bytes) (B : List Bytes) :
    (sectionsText s A s' B).length = (sectionsText s' B s A).length :=
  length_join_perm (@List.perm_append_comm _ (s :: A) (s' :: B)) _

theorem known_of_sections {u : Update} (h : u ∈ updates s A ++ updates s' B) : u.Known :=
  (List.mem_append.1 h).elim known_updates known_updates

/-- What `Parse` makes of a text does not depend on the order of the lines. -/
theorem toOption_parse_perm (hs : Sections s s') (hA : ∀ l ∈ A, IsLine l)
    (hB : ∀ l ∈ B, IsLine l) (hpA : A.Perm A') (hpB : B.Perm B')
    (hlen : (sectionsText s A s' B).length ≤ 32768) :
    (parse (sectionsText s A' s' B')).toOption = (parse (sectionsText s A s' B)).toOption := by
  have hA' : ∀ l ∈ A', IsLine l := fun l hl => hA l (hpA.mem_iff.2 hl)
  have hB' : ∀ l ∈ B', IsLine l := fun l hl => hB l (hpB.mem_iff.2 hl)
  have hperm : (updates s A ++ updates s' B).Perm (updates s A' ++ updates s' B') :=
    (hpA.flatMap_right _).append (hpB.flatMap_right _)
  rw [parse_sections hs hA hB hlen,
    parse_sections hs hA' hB' (length_sectionsText_perm hpA hpB ▸ hlen)]
  by_cases hacc : TextAccepted s A s' B
  · rw [if_pos hacc, if_pos (textAccepted_perm hpA hpB hacc),
      applyAll_perm hperm (fun _ => known_of_sections) hacc.2.2]
  · rw [if_neg hacc, if_neg fun h => hacc (textAccepted_perm hpA.symm hpB.symm h)]

/-- What `Parse` makes of a text does not depend on the order of the sections. -/
theorem toOption_parse_symm (hs : Sections s s') (hA : ∀ l ∈ A, IsLine l)
    (hB : ∀ l ∈ B, IsLine l) (hlen : (sectionsText s A s' B).length ≤ 32768) :
    (parse (sectionsText s' B s A)).toOption = (parse (sectionsText s A s' B)).toOption := by
  rw [parse_sections hs hA hB hlen,
    parse_sections hs.symm hB hA (length_sectionsText_symm s A s' B ▸ hlen)]
  by_cases hacc : TextAccepted s A s' B
  · rw [if_pos hacc, if_pos (textAccepted_symm hacc),
      applyAll_perm List.perm_append_comm (fun _ => known_of_sections) hacc.2.2]
  · rw [if_neg hacc, if_neg fun h => hacc (textAccepted_symm h)]

end

/-- **The order of the lines means nothing.** Of the texts with the same two sections, in
    either order and with their lines in any order, `Parse` accepts all or none, and those
    it accepts have the same metadata and the same commands for the device. -/
theorem parse_order {A B A' B' : List Bytes} (hA : ∀ l ∈ A, IsLine l) (hB : ∀ l ∈ B, IsLine l)
    (hlen : (sectionsText (str "[Interface]") A (str "[Peer]") B).length ≤ 32768)
    (hpA : A.Perm A') (hpB : B.Perm B') {raw : Bytes}
    (hraw : raw = sectionsText (str "[Interface]") A' (str "[Peer]") B' ∨
      raw = sectionsText (str "[Peer]") B' (str "[Interface]") A') :
    ((parse raw).toOption.isSome ↔
      (parse (sectionsText (str "[Interface]") A (str "[Peer]") B)).toOption.isSome) ∧
    ∀ c c', parse (sectionsText (str "[Interface]") A (str "[Peer]") B) = .ok c →
      parse raw = .ok c' →
        c'.metadata = c.metadata ∧ ∀ endpoint, c'.ipc endpoint = c.ipc endpoint := by
  have hs : Sections (str "[Interface]") (str "[Peer]") := .inl ⟨rfl, rfl⟩
  have hperm := toOption_parse_perm hs hA hB hpA hpB hlen
  have heq : (parse raw).toOption =
      (parse (sectionsText (str "[Interface]") A (str "[Peer]") B)).toOption := by
    rcases hraw with rfl | rfl
    · exact hperm
    · rw [← hperm]
      exact toOption_parse_symm hs (fun l hl => hA l (hpA.mem_iff.2 hl))
        (fun l hl => hB l (hpB.mem_iff.2 hl)) (length_sectionsText_perm hpA hpB ▸ hlen)
  refine ⟨by rw [heq], fun c c' hc hc' => ?_⟩
  rw [hc, hc'] at heq
  cases heq
  exact ⟨rfl, fun _ => rfl⟩

namespace Sample

/-- The lines of the interface of a small configuration. -/
def interface : List Bytes :=
  [str "PrivateKey = AQIDBAUGBwgJCgsMDQ4PEBESExQVFhcYGRobHB0eHyA=", str "Address = 10.0.0.2/32",
    str "DNS = 10.0.0.1"]

/-- The lines of its peer. -/
def peer : List Bytes :=
  [str "PublicKey = AQIDBAUGBwgJCgsMDQ4PEBESExQVFhcYGRobHB0eHyE=",
    str "Endpoint = 192.0.2.1:51820", str "AllowedIPs = 0.0.0.0/0"]

end Sample

theorem parse_order_sample :
    (parse (sectionsText (str "[Peer]") Sample.peer.reverse (str "[Interface]")
      Sample.interface.reverse)).toOption.isSome := by
  have hline : ∀ l ∈ Sample.interface ++ Sample.peer, IsLine l := by
    simp only [IsLine, IsHeader]
    decide
  refine (parse_order (fun l hl => hline l (List.mem_append_left _ hl))
    (fun l hl => hline l (List.mem_append_right _ hl)) (by decide +kernel)
    (List.reverse_perm _).symm (List.reverse_perm _).symm (.inr rfl)).1.2 ?_
  decide +kernel

end QuicLab.Awg
