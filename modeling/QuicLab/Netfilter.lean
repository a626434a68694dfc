import QuicLab.Go.Netip

/-!
# Netfilter

The part of the Linux packet filter that firewall scripts use: user chains of rules,
which a built-in chain jumps to in order. The first rule of a chain that matches a
packet decides; when none does, the packet goes on after the jump.

* `Firewall.verdict`: what the jumps of a built-in chain decide about a packet;
* `verdict_of_jumps_eq`: what the first chain decides is the verdict;
* `jumps_ensureJumps`: scripts put their jumps before the others, unless they are
  there already.
-/

namespace QuicLab.Netfilter

open Go Netip

/-- What a rule looks at: the interfaces a packet comes from and goes to, its
    addresses, the UDP port it goes to, if any, and whether conntrack knows its
    connection. -/
structure Packet where
  input : Bytes
  output : Bytes
  src : BitVec 32
  dst : BitVec 32
  udpPort : Option ℤ
  established : Bool

/-- A condition of a rule. -/
inductive Match
  | input (i : Bytes)
  | output (o : Bytes)
  | source (s : Prefix)
  | destination (d : Prefix)
  | udp (port : ℤ)
  | established
  | not (m : Match)

/-- What a rule does with the packets it matches. -/
inductive Target
  | accept
  | drop
  | masquerade
  | snat (source : BitVec 32)
  deriving DecidableEq

/-- A rule: all of its conditions must hold. -/
structure Rule where
  conditions : List Match
  target : Target

/-- Does the condition hold? -/
def Match.holds (p : Packet) : Match → Bool
  | .input i => p.input = i
  | .output o => p.output = o
  | .source s => s.contains (.v4 p.src)
  | .destination d => d.contains (.v4 p.dst)
  | .udp port => p.udpPort = some port
  | .established => p.established
  | .not m => !m.holds p

/-- Does the rule match? -/
def Rule.applies (r : Rule) (p : Packet) : Bool := r.conditions.all (·.holds p)

/-- The target of the first rule that matches. -/
def decideRules (rules : List Rule) (p : Packet) : Option Target :=
  (rules.find? (·.applies p)).map Rule.target

theorem decideRules_of_applies {r : Rule} {p : Packet} (h : r.applies p = true) (rs : List Rule) :
    decideRules (r :: rs) p = some r.target := by
  simp only [decideRules, List.find?_cons, h, Option.map_some]

theorem decideRules_of_not_applies {r : Rule} {p : Packet} (h : r.applies p = false)
    (rs : List Rule) : decideRules (r :: rs) p = decideRules rs p := by
  simp only [decideRules, List.find?_cons, h]

/-- Rules with one target decide for it if one of them matches. -/
theorem decideRules_append {rs : List Rule} {t : Target} (htarget : ∀ r ∈ rs, r.target = t)
    (rest : List Rule) (p : Packet) : decideRules (rs ++ rest) p =
      if ∃ r ∈ rs, r.applies p = true then some t else decideRules rest p := by
  induction rs with
  | nil => simp
  | cons r rs ih =>
    rw [List.cons_append]
    cases hr : r.applies p with
    | true =>
      rw [decideRules_of_applies hr, htarget r List.mem_cons_self,
        if_pos ⟨r, List.mem_cons_self, hr⟩]
    | false =>
      rw [decideRules_of_not_applies hr, ih fun r' hr' => htarget r' (List.mem_cons_of_mem _ hr')]
      simp [hr]

/-- The user chains with their rules, and the jumps to them from the built-in chains
    (`H`), in order. -/
structure Firewall (H C : Type*) where
  jumps : H → List C
  chains : C → Option (List Rule)

namespace Firewall

variable {H C : Type*} [DecidableEq H] [DecidableEq C]

/-- What the jumps `cs` decide about a packet. -/
def decideJumps (fw : Firewall H C) (p : Packet) : List C → Option Target
  | [] => none
  | c :: cs => (decideRules ((fw.chains c).getD []) p).or (fw.decideJumps p cs)

/-- What a built-in chain decides about a packet, by its jumps. -/
def verdict (fw : Firewall H C) (h : H) (p : Packet) : Option Target :=
  fw.decideJumps p (fw.jumps h)

/-- `iptables-restore --noflush`: the chains given get new rules. -/
def restore (fw : Firewall H C) (content : List (C × List Rule)) : Firewall H C where
  jumps := fw.jumps
  chains := content.foldl (fun chains e => Function.update chains e.1 (some e.2)) fw.chains

/-- `iptables -I h 1 -j c`, unless the jump is there already. -/
def ensureJump (fw : Firewall H C) (h : H) (c : C) : Firewall H C :=
  if c ∈ fw.jumps h then fw
  else { fw with jumps := Function.update fw.jumps h (c :: fw.jumps h) }

/-- A jump for each of the entries. -/
def ensureJumps (fw : Firewall H C) (l : List (H × C)) : Firewall H C :=
  l.foldl (fun fw e => fw.ensureJump e.1 e.2) fw

/-- `iptables -D h -j c`, as long as the jump is there. -/
def removeJumps (fw : Firewall H C) (h : H) (c : C) : Firewall H C :=
  { fw with jumps := Function.update fw.jumps h ((fw.jumps h).filter (· ≠ c)) }

/-- `iptables -D h -j c`, if the jump is there. -/
def removeJump (fw : Firewall H C) (h : H) (c : C) : Firewall H C :=
  { fw with jumps := Function.update fw.jumps h ((fw.jumps h).erase c) }

/-- `iptables -F c` and `iptables -X c`: a chain that is jumped to stays, empty. -/
def deleteChain (fw : Firewall H C) (h : H) (c : C) : Firewall H C :=
  { fw with
    chains := Function.update fw.chains c
      (if c ∈ fw.jumps h ∧ (fw.chains c).isSome then some [] else none) }

omit [DecidableEq H] [DecidableEq C] in
/-- The first chain that decides gives the verdict. -/
theorem verdict_of_jumps_eq {fw : Firewall H C} {h : H} {c : C} {cs : List C}
    (hjumps : fw.jumps h = c :: cs) {rules : List Rule} (hrules : fw.chains c = some rules)
    {p : Packet} {t : Target} (hdecide : decideRules rules p = some t) :
    fw.verdict h p = some t := by
  rw [verdict, hjumps, decideJumps, hrules, Option.getD_some, hdecide, Option.some_or]

omit [DecidableEq H] in
/-- Restoring leaves the other chains. -/
theorem chains_restore_of_notMem (fw : Firewall H C) {content : List (C × List Rule)} {c : C}
    (hc : c ∉ content.map Prod.fst) : (fw.restore content).chains c = fw.chains c := by
  induction content generalizing fw with
  | nil => rfl
  | cons e content ih =>
    rw [List.map_cons, List.mem_cons, not_or] at hc
    exact (ih ⟨fw.jumps, Function.update fw.chains e.1 (some e.2)⟩ hc.2).trans
      (Function.update_of_ne hc.1 _ _)

omit [DecidableEq H] in
theorem chains_restore (fw : Firewall H C) {content : List (C × List Rule)}
    (hnodup : (content.map Prod.fst).Nodup) {c : C} {rules : List Rule}
    (hc : (c, rules) ∈ content) : (fw.restore content).chains c = some rules := by
  induction content generalizing fw with
  | nil => cases hc
  | cons e content ih =>
    rw [List.map_cons, List.nodup_cons] at hnodup
    obtain rfl | hmem := List.mem_cons.1 hc
    · exact (chains_restore_of_notMem ⟨fw.jumps, _⟩ hnodup.1).trans (Function.update_self _ _ _)
    · exact ih ⟨fw.jumps, Function.update fw.chains e.1 (some e.2)⟩ hnodup.2 hmem

theorem chains_ensureJumps (fw : Firewall H C) (l : List (H × C)) :
    (fw.ensureJumps l).chains = fw.chains := by
  induction l generalizing fw with
  | nil => rfl
  | cons e l ih =>
    refine (ih (fw.ensureJump e.1 e.2)).trans ?_
    rw [ensureJump]
    split_ifs
    · rfl
    · rfl

/-- Jumps of other built-in chains are not touched. -/
theorem jumps_ensureJumps_of_notMem (fw : Firewall H C) {l : List (H × C)} {h : H}
    (hl : h ∉ l.map Prod.fst) : (fw.ensureJumps l).jumps h = fw.jumps h := by
  induction l generalizing fw with
  | nil => rfl
  | cons e l ih =>
    rw [List.map_cons, List.mem_cons, not_or] at hl
    refine (ih (fw.ensureJump e.1 e.2) hl.2).trans ?_
    rw [ensureJump]
    split_ifs
    · rfl
    · exact Function.update_of_ne hl.1 _ _

/-- A jump is put first, unless it is there. -/
theorem jumps_ensureJumps (fw : Firewall H C) {l : List (H × C)} (hl : (l.map Prod.fst).Nodup)
    {h : H} {c : C} (hc : (h, c) ∈ l) : (fw.ensureJumps l).jumps h =
      if c ∈ fw.jumps h then fw.jumps h else c :: fw.jumps h := by
  induction l generalizing fw with
  | nil => cases hc
  | cons e l ih =>
    rw [List.map_cons, List.nodup_cons] at hl
    obtain rfl | hmem := List.mem_cons.1 hc
    · refine (jumps_ensureJumps_of_notMem (fw.ensureJump h c) hl.1).trans ?_
      rw [ensureJump]
      split_ifs
      · rfl
      · exact Function.update_self _ _ _
    · have hne : h ≠ e.1 := fun heq =>
        hl.1 (heq ▸ List.mem_map.2 ⟨(h, c), hmem, rfl⟩)
      have hsame : (fw.ensureJump e.1 e.2).jumps h = fw.jumps h := by
        rw [ensureJump]
        split_ifs
        · rfl
        · exact Function.update_of_ne hne _ _
      refine (ih (fw.ensureJump e.1 e.2) hl.2 hmem).trans ?_
      rw [hsame]

end Firewall

end QuicLab.Netfilter
