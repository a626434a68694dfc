import QuicLab.Go.Netip
import QuicLab.Go.Reader

/-!
# Routing policies

The ordered rules of multiple VPN profiles (package `routing`). `parse` accepts
a list of rules; a `Policy` is one it accepted, so that its ids are known to be
distinct, and none is empty or the id `direct` of the unmatched traffic.

`Policy.route` says what the rules are for: the first rule that decides about a
flow gives its profile, and traffic that no rule decides about is direct. A rule
on applications decides to block a flow whose owner is unknown.
`choose_profile` is its agreement with the loop of `Choose`.
-/

namespace QuicLab.Routing

open Go

/-- The modes of a rule. -/
inductive Mode
  | all
  | apps
  | exclude
  | subnets
  deriving DecidableEq

/-- A rule as it is decoded from JSON. -/
structure RuleJSON where
  id : Bytes
  mode : Bytes
  uids : List ℤ
  subnets : List Bytes

/-- A checked rule. -/
structure Rule where
  id : Bytes
  mode : Mode
  uids : List ℤ
  prefixes : List Netip.Prefix

/-- The id of the direct traffic. -/
def direct : Bytes := str "direct"

/-! ## Parsing -/

/-- The prefixes of a rule on subnets. -/
def parseSubnets : List Bytes → Except Error (List Netip.Prefix)
  | [] => .ok []
  | s :: subnets =>
    match Netip.parsePrefix s with
    | none => .error (.errorf "invalid IPv4 subnet %q" [s])
    | some v =>
      if v.addr.is4 then (parseSubnets subnets).map (v.masked :: ·)
      else .error (.errorf "invalid IPv4 subnet %q" [s])

/-- The checks of a rule by its mode. -/
def parseRule (r : RuleJSON) : Except Error Rule :=
  if r.mode = str "all" then .ok ⟨r.id, .all, r.uids, []⟩
  else if r.mode = str "apps" ∨ r.mode = str "exclude" then
    if r.mode = str "apps" ∧ r.uids = [] then .error (.errorf "profile %s: no apps" [r.id])
    else if ∃ uid ∈ r.uids, uid < 0 then .error (.new "invalid UID")
    else .ok ⟨r.id, if r.mode = str "apps" then .apps else .exclude, r.uids, []⟩
  else if r.mode = str "subnets" then
    if r.subnets = [] then .error (.errorf "profile %s: no subnets" [r.id])
    else (parseSubnets r.subnets).map fun prefixes => ⟨r.id, .subnets, r.uids, prefixes⟩
  else .error (.new "invalid rule mode")

/-- The loop of `Parse`, the ids in `seen` being taken. -/
def parseRules (seen : List Bytes) : List RuleJSON → Except Error (List Rule)
  | [] => .ok []
  | r :: rules =>
    if r.id = [] ∨ r.id = direct ∨ r.id ∈ seen then .error (.new "invalid or duplicate profile")
    else
      match parseRule r with
      | .error e => .error e
      | .ok rule => (parseRules (r.id :: seen) rules).map (rule :: ·)

section Modes

variable {id : Bytes} {uids : List ℤ} {subnets : List Bytes}

theorem parseRule_all : parseRule ⟨id, str "all", uids, subnets⟩ = .ok ⟨id, .all, uids, []⟩ :=
  if_pos rfl

theorem parseRule_apps (hne : uids ≠ []) (huids : ∀ uid ∈ uids, 0 ≤ uid) :
    parseRule ⟨id, str "apps", uids, subnets⟩ = .ok ⟨id, .apps, uids, []⟩ := by
  have hmode : ¬ str "apps" = str "all" := by decide
  have hneg : ¬ ∃ uid ∈ uids, uid < 0 := fun ⟨uid, hmem, hlt⟩ => absurd (huids uid hmem) (not_le.2 hlt)
  simp only [parseRule, hmode, if_false, true_or, if_true, true_and, hne, hneg]

theorem parseRule_exclude (huids : ∀ uid ∈ uids, 0 ≤ uid) :
    parseRule ⟨id, str "exclude", uids, subnets⟩ = .ok ⟨id, .exclude, uids, []⟩ := by
  have hmode : ¬ str "exclude" = str "all" ∧ ¬ str "exclude" = str "apps" := by decide
  have hneg : ¬ ∃ uid ∈ uids, uid < 0 := fun ⟨uid, hmem, hlt⟩ => absurd (huids uid hmem) (not_le.2 hlt)
  simp only [parseRule, hmode, if_false, or_true, if_true, false_and, hneg]

theorem parseRule_subnets (hne : subnets ≠ []) {prefixes : List Netip.Prefix}
    (h : parseSubnets subnets = .ok prefixes) :
    parseRule ⟨id, str "subnets", uids, subnets⟩ = .ok ⟨id, .subnets, uids, prefixes⟩ := by
  have hmode : ¬ str "subnets" = str "all" ∧ ¬ str "subnets" = str "apps" ∧
      ¬ str "subnets" = str "exclude" := by decide
  simp only [parseRule, hmode, if_false, or_self, if_true, hne, h]
  rfl

end Modes

variable {r : RuleJSON}

theorem parseRule_id {rule : Rule} (h : parseRule r = .ok rule) :
    rule.id = r.id := by
  rw [parseRule] at h
  split_ifs at h
  all_goals first
    | (cases h; rfl)
    | (cases hs : parseSubnets r.subnets <;> rw [hs] at h <;> cases h; rfl)

variable {rs : List RuleJSON} {seen : List Bytes} {rules : List Rule}

theorem parseRules_cons (h : parseRules seen (r :: rs) = .ok rules) :
    r.id ≠ [] ∧ r.id ≠ direct ∧ r.id ∉ seen ∧
      ∃ rule rest, rule.id = r.id ∧ parseRules (r.id :: seen) rs = .ok rest ∧
        rules = rule :: rest := by
  rw [parseRules] at h
  split_ifs at h with hid
  rw [not_or, not_or] at hid
  refine ⟨hid.1, hid.2.1, hid.2.2, ?_⟩
  cases hr : parseRule r with
  | error e => rw [hr] at h; cases h
  | ok rule =>
    rw [hr] at h
    cases hrest : parseRules (r.id :: seen) rs with
    | error e => rw [hrest] at h; cases h
    | ok rest =>
      rw [hrest] at h
      cases h
      exact ⟨rule, rest, parseRule_id hr, rfl, rfl⟩

/-- The ids of accepted rules are new and distinct. -/
theorem parseRules_ids (h : parseRules seen rs = .ok rules) :
    rules.length = rs.length ∧ (rules.map (·.id)).Nodup ∧
      ∀ r ∈ rules, r.id ≠ [] ∧ r.id ≠ direct ∧ r.id ∉ seen := by
  induction rs generalizing seen rules with
  | nil =>
    cases h
    exact ⟨rfl, List.nodup_nil, List.forall_mem_nil _⟩
  | cons r rs ih =>
    obtain ⟨hne, hdirect, hseen, rule, rest, hid, hrest, rfl⟩ := parseRules_cons h
    obtain ⟨hlen, hnodup, hids⟩ := ih hrest
    refine ⟨congrArg (· + 1) hlen, ?_, fun q hq => ?_⟩
    · rw [List.map_cons, List.nodup_cons, List.mem_map]
      refine ⟨fun ⟨q, hq, heq⟩ => (hids q hq).2.2 ?_, hnodup⟩
      rw [heq, hid]
      exact List.mem_cons_self
    · rcases List.mem_cons.1 hq with rfl | hq
      · exact hid ▸ ⟨hne, hdirect, hseen⟩
      · obtain ⟨h1, h2, h3⟩ := hids q hq
        exact ⟨h1, h2, fun h => h3 (List.mem_cons_of_mem _ h)⟩

/-- The rules that are accepted: every one passes its checks, and its id is new. -/
theorem exists_parseRules_iff :
    (∃ rules, parseRules seen rs = .ok rules) ↔
      (∀ r ∈ rs, r.id ≠ [] ∧ r.id ≠ direct ∧ r.id ∉ seen ∧ ∃ rule, parseRule r = .ok rule) ∧
        (rs.map (·.id)).Nodup := by
  induction rs generalizing seen with
  | nil => simp [parseRules]
  | cons r rs ih =>
    rw [List.forall_mem_cons, List.map_cons, List.nodup_cons, parseRules]
    by_cases hid : r.id = [] ∨ r.id = direct ∨ r.id ∈ seen
    · rw [if_pos hid]
      constructor
      · rintro ⟨rules, h⟩
        cases h
      · rintro ⟨⟨⟨h1, h2, h3, _⟩, _⟩, _⟩
        exact absurd hid (by simp [h1, h2, h3])
    · rw [if_neg hid]
      rw [not_or, not_or] at hid
      cases hr : parseRule r with
      | error e => simp
      | ok rule =>
        have hrest : (∃ rules, (parseRules (r.id :: seen) rs).map (rule :: ·) = .ok rules) ↔
            ∃ rules, parseRules (r.id :: seen) rs = .ok rules := by
          cases parseRules (r.id :: seen) rs <;> simp [Except.map]
        rw [hrest, ih]
        simp only [List.mem_cons, not_or, List.mem_map, not_exists, not_and]
        constructor
        · rintro ⟨hall, hnodup⟩
          exact ⟨⟨⟨hid.1, hid.2.1, hid.2.2, rule, rfl⟩, fun q hq =>
            ⟨(hall q hq).1, (hall q hq).2.1, (hall q hq).2.2.1.2, (hall q hq).2.2.2⟩⟩,
            fun q hq => (hall q hq).2.2.1.1, hnodup⟩
        · rintro ⟨⟨_, hall⟩, hnew, hnodup⟩
          exact ⟨fun q hq => ⟨(hall q hq).1, (hall q hq).2.1, ⟨hnew q hq, (hall q hq).2.2.1⟩,
            (hall q hq).2.2.2⟩, hnodup⟩

/-- Where an accepted rule comes from. -/
theorem mem_parseRules (h : parseRules seen rs = .ok rules) (hr : r ∈ rs) :
    ∃ rule ∈ rules, parseRule r = .ok rule := by
  induction rs generalizing seen rules with
  | nil => cases hr
  | cons q rs ih =>
    rw [parseRules] at h
    split_ifs at h
    cases hq : parseRule q with
    | error e =>
      rw [hq] at h
      cases h
    | ok rule =>
      cases hrest : parseRules (q.id :: seen) rs with
      | error e =>
        rw [hq, hrest] at h
        cases h
      | ok rest =>
        rw [hq, hrest] at h
        cases h
        rcases List.mem_cons.1 hr with rfl | hr
        · exact ⟨rule, List.mem_cons_self, hq⟩
        · obtain ⟨rule', hmem, hrule⟩ := ih hrest hr
          exact ⟨rule', List.mem_cons_of_mem _ hmem, hrule⟩

/-- IPv4 prefixes are accepted, and masked. -/
theorem parseSubnets_v4 {subnets : List Bytes}
    (h : ∀ s ∈ subnets, ∃ p : Netip.Prefix, p.addr.is4 = true ∧ s = p.string) :
    ∃ prefixes, parseSubnets subnets = .ok prefixes ∧
      ∀ q, q ∈ prefixes ↔ ∃ p : Netip.Prefix, p.addr.is4 = true ∧ p.string ∈ subnets ∧
        q = p.masked := by
  induction subnets with
  | nil => exact ⟨[], rfl, by simp⟩
  | cons s subnets ih =>
    rw [List.forall_mem_cons] at h
    obtain ⟨⟨p, hp, rfl⟩, hrest⟩ := h
    obtain ⟨prefixes, hprefixes, hmem⟩ := ih hrest
    obtain ⟨a, ha⟩ := Netip.Addr.exists_v4 hp
    have hparse := (Netip.Prefix.parsePrefix_eq_v4_iff ha).2 rfl
    refine ⟨p.masked :: prefixes, ?_, fun q => ?_⟩
    · rw [parseSubnets, hparse]
      simp only [hp, if_true, hprefixes]
      rfl
    · rw [List.mem_cons, hmem]
      constructor
      · rintro (rfl | ⟨p', hp', hs, rfl⟩)
        · exact ⟨p, hp, List.mem_cons_self, rfl⟩
        · exact ⟨p', hp', List.mem_cons_of_mem _ hs, rfl⟩
      · rintro ⟨p', hp', hs, rfl⟩
        rcases List.mem_cons.1 hs with hs | hs
        · left
          -- The text of a prefix says which one it is.
          obtain ⟨a', ha'⟩ := Netip.Addr.exists_v4 hp'
          have hparse' := (Netip.Prefix.parsePrefix_eq_v4_iff ha').2 hs.symm
          rw [hparse] at hparse'
          rw [Option.some.inj hparse']
        · exact .inr ⟨p', hp', hs, rfl⟩

/-- The rules of a router, as `Parse` accepts them. -/
structure Policy where
  rules : List Rule
  length_pos : 0 < rules.length
  length_le : rules.length ≤ 32
  nodup_ids : (rules.map (·.id)).Nodup
  id_ne : ∀ r ∈ rules, r.id ≠ [] ∧ r.id ≠ direct

/-- `Parse`, the JSON decoder being given. -/
def parse (unmarshal : Bytes → Except Error (List RuleJSON)) (raw : Bytes) :
    Except Error Policy :=
  match unmarshal raw with
  | .error e => .error e
  | .ok rs =>
    if hlen : rs.length = 0 ∨ 32 < rs.length then .error (.new "choose 1–32 profiles")
    else
      match h : parseRules [] rs with
      | .error e => .error e
      | .ok rules => .ok
        { rules
          length_pos := by have := (parseRules_ids h).1; omega
          length_le := by have := (parseRules_ids h).1; omega
          nodup_ids := (parseRules_ids h).2.1
          id_ne := fun r hr =>
            ⟨((parseRules_ids h).2.2 r hr).1, ((parseRules_ids h).2.2 r hr).2.1⟩ }

theorem parse_eq_ok_iff {unmarshal : Bytes → Except Error (List RuleJSON)} {raw : Bytes}
    (hrs : unmarshal raw = .ok rs) {p : Policy} :
    parse unmarshal raw = .ok p ↔
      rs ≠ [] ∧ rs.length ≤ 32 ∧ parseRules [] rs = .ok p.rules := by
  rw [parse, hrs]
  simp only
  split_ifs with hlen
  · refine ⟨(fun h => by cases h), fun ⟨hne, hle, _⟩ => ?_⟩
    rcases hlen with h | h
    · exact absurd (List.length_eq_zero_iff.1 h) hne
    · omega
  · rw [not_or, List.length_eq_zero_iff, not_lt] at hlen
    split
    · rename_i e he
      exact ⟨(fun h => by cases h), fun h => by rw [he] at h; cases h.2.2⟩
    · rename_i rules hrules
      constructor
      · intro h
        cases h
        exact ⟨hlen.1, hlen.2, hrules⟩
      · rintro ⟨_, _, h⟩
        obtain rfl := Except.ok.inj (hrules.symm.trans h)
        rfl

theorem exists_parse_iff {unmarshal : Bytes → Except Error (List RuleJSON)} {raw : Bytes}
    (hrs : unmarshal raw = .ok rs) :
    (∃ p, parse unmarshal raw = .ok p) ↔
      rs ≠ [] ∧ rs.length ≤ 32 ∧ ∃ rules, parseRules [] rs = .ok rules := by
  constructor
  · rintro ⟨p, hp⟩
    obtain ⟨hne, hle, hrules⟩ := (parse_eq_ok_iff hrs).1 hp
    exact ⟨hne, hle, p.rules, hrules⟩
  · rintro ⟨hne, hle, rules, hrules⟩
    obtain ⟨hlen, hnodup, hids⟩ := parseRules_ids hrules
    have hpos := List.length_pos_iff.2 hne
    exact ⟨⟨rules, by omega, by omega, hnodup, fun r hr => ⟨(hids r hr).1, (hids r hr).2.1⟩⟩,
      (parse_eq_ok_iff hrs).2 ⟨hne, hle, hrules⟩⟩

/-! ## Choosing -/

/-- A profile, and the reason of its choice. -/
structure Decision where
  profile : Bytes
  reason : Bytes
  deriving DecidableEq

/-- The loop of `Choose`. -/
def chooseRule (dst : Netip.Addr) (uid : ℤ) : List Rule → Decision
  | [] => ⟨direct, str "unmatched"⟩
  | r :: rules =>
    match r.mode with
    | .all => ⟨r.id, str "all"⟩
    | .subnets =>
      if r.prefixes.any (·.contains dst) then ⟨r.id, str "subnet"⟩ else chooseRule dst uid rules
    | .apps =>
      if uid < 0 then ⟨[], str "unknown_uid"⟩
      else if uid ∈ r.uids then ⟨r.id, str "apps"⟩
      else chooseRule dst uid rules
    | .exclude =>
      if uid < 0 then ⟨[], str "unknown_uid"⟩
      else if uid ∉ r.uids then ⟨r.id, str "exclude"⟩
      else chooseRule dst uid rules

/-- `Policy.Choose`. -/
def Policy.choose (p : Policy) (dst : Netip.Addr) (uid : ℤ) : Decision :=
  chooseRule dst uid p.rules

/-! ## First matching rule -/

/-- Is the flow one the rule is for? -/
def Rule.Matches (r : Rule) (dst : Netip.Addr) (uid : ℤ) : Prop :=
  match r.mode with
  | .all => True
  | .subnets => ∃ p ∈ r.prefixes, p.contains dst
  | .apps => uid ∈ r.uids
  | .exclude => uid ∉ r.uids

instance (r : Rule) (dst : Netip.Addr) (uid : ℤ) : Decidable (r.Matches dst uid) := by
  rw [Rule.Matches]
  cases r.mode <;> infer_instance

/-- The owner of the flow is unknown, and the rule is on applications. -/
def Rule.Blocks (r : Rule) (uid : ℤ) : Prop := (r.mode = .apps ∨ r.mode = .exclude) ∧ uid < 0

instance (r : Rule) (uid : ℤ) : Decidable (r.Blocks uid) :=
  inferInstanceAs (Decidable (_ ∧ _))

/-- The profile of the first rule that matches the flow, unless a rule on
    applications is reached first with an unknown owner; the direct traffic if
    there is neither. -/
def Policy.route (p : Policy) (dst : Netip.Addr) (uid : ℤ) : Option Bytes :=
  match p.rules.find? (fun r => r.Blocks uid ∨ r.Matches dst uid) with
  | none => some direct
  | some r => if r.Blocks uid then none else some r.id

/-- A rule blocks the flow, gives its profile, or leaves it to the next ones. -/
theorem chooseRule_cons (dst : Netip.Addr) (uid : ℤ) (r : Rule) (rules : List Rule) :
    (chooseRule dst uid (r :: rules)).profile =
      if r.Blocks uid then [] else if r.Matches dst uid then r.id
      else (chooseRule dst uid rules).profile := by
  have happs : (r.mode = .apps ∨ r.mode = .exclude) → (r.Blocks uid ↔ uid < 0) := fun h =>
    ⟨fun hb => hb.2, fun hu => ⟨h, hu⟩⟩
  rw [chooseRule]
  cases hm : r.mode with
  | all =>
    have hblock : ¬ r.Blocks uid := by simp [Rule.Blocks, hm]
    have hmatch : r.Matches dst uid := by simp [Rule.Matches, hm]
    rw [if_neg hblock, if_pos hmatch]
  | subnets =>
    have hblock : ¬ r.Blocks uid := by simp [Rule.Blocks, hm]
    have hmatch : r.Matches dst uid ↔ r.prefixes.any (·.contains dst) := by
      simp [Rule.Matches, hm]
    simp only [if_neg hblock, hmatch]
    split_ifs <;> rfl
  | apps =>
    have hmatch : r.Matches dst uid ↔ uid ∈ r.uids := by simp [Rule.Matches, hm]
    simp only [happs (.inl hm), hmatch]
    split_ifs <;> rfl
  | exclude =>
    have hmatch : r.Matches dst uid ↔ uid ∉ r.uids := by simp [Rule.Matches, hm]
    simp only [happs (.inr hm), hmatch]
    split_ifs <;> rfl

theorem chooseRule_profile (dst : Netip.Addr) (uid : ℤ) (rules : List Rule) :
    (chooseRule dst uid rules).profile =
      match rules.find? (fun r => r.Blocks uid ∨ r.Matches dst uid) with
      | none => direct
      | some r => if r.Blocks uid then [] else r.id := by
  induction rules with
  | nil => rfl
  | cons r rules ih =>
    rw [chooseRule_cons, List.find?_cons]
    by_cases hb : r.Blocks uid
    · simp [hb]
    · by_cases hm : r.Matches dst uid
      · simp [hb, hm]
      · simp only [hb, hm, or_self, decide_false, if_false, ih]

/-- `Choose` finds the profile of the first rule that decides, none being the
    empty one. -/
theorem Policy.choose_profile (p : Policy) (dst : Netip.Addr) (uid : ℤ) :
    (p.choose dst uid).profile = (p.route dst uid).getD [] := by
  rw [choose, chooseRule_profile, route]
  split
  · rfl
  · split_ifs <;> rfl

end QuicLab.Routing
