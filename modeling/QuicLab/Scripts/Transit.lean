import QuicLab.Command
import QuicLab.Scripts.Network

/-!
# The policy rules of transit

`transit-network.py start` sends the traffic of its sources to a table of its own, by
policy rules of priority 0. The rule that looks up local addresses has the same priority
and is to come after them, so it is moved: a twin with another protocol is added, and the
old one is deleted. `stop` deletes the rules of the sources, and gives the local rule its
protocol back, which a marker file remembers.

* `hasLocal_of_reachable`: in every state that the scripts pass through, interrupted
  anywhere, there is a local rule of priority 0.
* `steady_of_run`: while no run is interrupted, the rules are those there were at first, or
  the rules of the sources come before the local rule. This needs that there is no rule of
  another priority that sends a source to the table of transit: the script takes it for
  its own.

The commands on routes and on the firewall leave the rules alone and are left out; a run
in which one of them fails ends as if it were interrupted there.
-/

namespace QuicLab.Scripts.Transit

open Go Netip
open Command (Keeps Triple Traced)

/-! ## Rules -/

/-- The protocol of a rule, that is, who made it. -/
inductive Protocol
  | unspec
  | kernel
  | boot
  | static
  | other (n : ℕ)
  deriving DecidableEq

/-- A routing table: that of local addresses, that of transit (`TABLE`), or another. -/
inductive Table
  | lookupLocal
  | transit
  | other (n : ℕ)
  deriving DecidableEq

/-- A policy rule: `none` are all sources. -/
structure PolicyRule where
  priority : ℕ
  src : Option Prefix
  table : Table
  protocol : Protocol
  deriving DecidableEq

/-- `ip -4 rule add`: after the rules of its priority, unless it is there already. -/
def add (r : PolicyRule) (rules : List PolicyRule) : Option (List PolicyRule) :=
  if r ∈ rules then none
  else some (rules.takeWhile (·.priority ≤ r.priority) ++
    r :: rules.dropWhile (·.priority ≤ r.priority))

/-- Does the rule have the fields given? -/
def hasFields (priority : ℕ) (src : Option Prefix) (table : Table) (protocol : Option Protocol)
    (r : PolicyRule) : Bool :=
  r.priority = priority ∧ r.src = src ∧ r.table = table ∧ ∀ p ∈ protocol, r.protocol = p

/-- `ip -4 rule del`, by the fields given. -/
def del (priority : ℕ) (src : Option Prefix) (table : Table) (protocol : Option Protocol)
    (rules : List PolicyRule) : Option (List PolicyRule) :=
  if rules.any (hasFields priority src table protocol) then
    some (rules.eraseP (hasFields priority src table protocol))
  else none

/-- The source of a rule: the network of length 0 is that of all sources. -/
def srcOf (p : Prefix) : Option Prefix := if p.bits = 0 then none else some p

/-- The rule of a source. -/
def sourceRule (p : Prefix) : PolicyRule := ⟨0, srcOf p, .transit, .unspec⟩

/-- The rule that looks up local addresses. -/
def localRule (protocol : Protocol) : PolicyRule := ⟨0, none, .lookupLocal, protocol⟩

/-! ## Scripts -/

/-- The marker: the sources, and the protocol the local rule had. -/
structure Marker where
  sources : List Prefix
  localProtocol : Protocol

/-- The rules, and the marker if it is there. -/
structure State where
  rules : List PolicyRule
  marker : Option Marker

/-- What a run ends with: an exception, a command that failed, or a rule that was not
    found. -/
inductive Failure
  | raised (e : PyError)
  | called
  | stopIteration

abbrev Act (α : Type) := Command (Command.Traced State) Failure α

/-- A command on the rules. -/
def State.onRules (f : List PolicyRule → Option (List PolicyRule)) (s : State) : Option State :=
  (f s.rules).map fun rules => { s with rules }

/-- The configuration: that of transit, and the addresses of the front end. -/
structure Config where
  transit : TransitConfig
  frontIPs : Option (List (BitVec 32))

/-- What `start` finds: routes in its table, and its chains. -/
structure Found where
  tableUsed : Bool
  chains : Bool

/-- `raise`, under a condition. -/
def raiseIf (bad : Prop) [Decidable bad] (e : Failure) : Act Unit :=
  if bad then Command.fail e else pure ()

/-- A text that is parsed. -/
def parsed {α : Type} : Except PyError α → Act α
  | .ok a => pure a
  | .error e => Command.fail (.raised e)

/-- Is it a rule of priority 0 for local addresses? -/
def isLocal (r : PolicyRule) : Bool := r.priority = 0 ∧ r.table = .lookupLocal

/-- Is it, for all sources? -/
def isHostLocal (r : PolicyRule) : Bool := r.priority = 0 ∧ r.src = none ∧ r.table = .lookupLocal

/-- Is it listed as a rule of the source for the table of transit? That of all sources is
    listed under `all`, and not under its network. -/
def matchesSource (p : Prefix) (r : PolicyRule) : Bool :=
  r.table = .transit ∧ r.src ≠ none ∧ r.src = srcOf p

/-- The last rule for the table of transit. -/
def lastOwned (rules : List PolicyRule) : Option ℕ :=
  (rules.reverse.findIdx? (·.table = .transit)).map (rules.length - 1 - ·)

/-- The check of the marker, which is written if it is not there. -/
def prepare (found : Found) (sources : List Prefix) (current : List PolicyRule) :
    Option Marker → Act Unit
  | none => do
    raiseIf (∃ r ∈ current, r.priority = 0 ∧ (r.table ≠ .lookupLocal ∨ r.src ≠ none))
      (.raised (.runtime "Custom priority-0 rules exist; configure transit routing manually"))
    raiseIf found.tableUsed (.raised (.runtime "Transit route table is already in use"))
    raiseIf found.chains (.raised (.runtime "Unmanaged transit firewall chain exists"))
    match current.find? isLocal with
    | none => Command.fail .stopIteration
    | some l =>
      Command.run (fun s => some { s with marker := some ⟨sources, l.protocol⟩ }) .called
  | some m =>
    raiseIf (m.sources ≠ sources)
      (.raised (.runtime "Disable transit before changing its source/subnet"))

/-- The rules of the sources, as far as they are not listed in `current`. -/
def addSources (current : List PolicyRule) : List Prefix → Act Unit
  | [] => pure ()
  | p :: ps => do
    (if current.any (matchesSource p) then pure ()
      else Command.run (State.onRules (add (sourceRule p))) .called)
    addSources current ps

/-- The local rule under another protocol. -/
def replaceLocal (old new : Protocol) : Act Unit := do
  Command.run (State.onRules (add (localRule new))) .called
  Command.run (State.onRules (del 0 none .lookupLocal (some old))) .called

/-- The local rule after the rules of the sources. -/
def moveLocal : Act Unit := do
  let s ← Command.now
  match s.rules.find? isHostLocal, lastOwned s.rules with
  | some l, some last =>
    if s.rules.findIdx isHostLocal < last then
      replaceLocal l.protocol (if l.protocol ≠ .static then .static else .boot)
    else pure ()
  | _, _ => Command.fail .stopIteration

/-- What `start` does once its checks have passed and the marker is there. -/
def startMarked (c : Config) (current : List PolicyRule) (sources : List Prefix) : Act Unit := do
  raiseIf (c.frontIPs = none) (.raised .parse)
  addSources current sources
  moveLocal
  raiseIf (c.transit.endpoint = none) (.raised .parse)

/-- `transit-network.py start`. -/
def start (found : Found) (c : Config) : Act Unit := do
  let sources ← parsed c.transit.sources
  let s ← Command.now
  prepare found sources s.rules s.marker
  startMarked c s.rules sources

/-- The rules of the sources deleted, those that are there. -/
def delSources : List Prefix → Act Unit
  | [] => pure ()
  | p :: ps => do
    Command.attempt (State.onRules (del 0 (srcOf p) .transit none))
    delSources ps

/-- The local rule under the protocol it had. -/
def restoreLocal (original : Protocol) : Act Unit := do
  let s ← Command.now
  match s.rules.find? isLocal with
  | none => Command.fail .stopIteration
  | some l => if l.protocol ≠ original then replaceLocal l.protocol original else pure ()

/-- `transit-network.py stop`. -/
def stop (c : Config) : Act Unit := do
  let sources ← parsed c.transit.sources
  let s ← Command.now
  match s.marker with
  | none => pure ()
  | some m => do
    delSources sources
    restoreLocal m.localProtocol
    Command.run (fun s => some { s with marker := none }) .called

/-- A run of the script. -/
inductive Script
  | start (found : Found)
  | stop

/-- What a run does. -/
def Script.exec (c : Config) : Script → Act Unit
  | .start found => Transit.start found c
  | .stop => Transit.stop c

/-- What a run from a state comes to, and the states it passes through. -/
def Script.trace (c : Config) (sc : Script) (s : State) : Except Failure Unit × Command.Traced State :=
  sc.exec c (.start s)

/-- The runs of the script with one configuration; a run that is interrupted ends in any
    of the states it passes through. -/
def runs (c : Config) (s₀ : State) : System State (Script × Bool) where
  init s := s = s₀
  step s a s' := if a.2 then s' ∈ (a.1.trace c s).2.seen else s' = (a.1.trace c s).2.now

/-! ## The local rule is never lost -/

/-- There is a local rule of priority 0 for all sources. -/
def HasLocal (s : State) : Prop := ∃ protocol, localRule protocol ∈ s.rules

section Kept

variable {rules rules' : List PolicyRule} {r x : PolicyRule}

theorem mem_of_add (h : add r rules = some rules') : x ∈ rules' ↔ x = r ∨ x ∈ rules := by
  rw [add] at h
  split_ifs at h
  cases h
  have hmem : x ∈ rules ↔ x ∈ rules.takeWhile (·.priority ≤ r.priority) ∨
      x ∈ rules.dropWhile (·.priority ≤ r.priority) := by
    rw [← List.mem_append, List.takeWhile_append_dropWhile]
  rw [List.mem_append, List.mem_cons, hmem]
  tauto

/-- A rule with other fields stays. -/
theorem mem_of_del {priority : ℕ} {src : Option Prefix} {table : Table}
    {protocol : Option Protocol} (h : del priority src table protocol rules = some rules')
    (hx : x ∈ rules) (hne : hasFields priority src table protocol x = false) : x ∈ rules' := by
  rw [del] at h
  split_ifs at h
  cases h
  exact (List.mem_eraseP_of_neg (by rw [hne]; exact Bool.false_ne_true)).2 hx

variable {s s' : State}

theorem onRules_eq_some {f : List PolicyRule → Option (List PolicyRule)} (h : s.onRules f = some s') :
    ∃ rules, f s.rules = some rules ∧ s' = { s with rules } := by
  obtain ⟨rules, hf, rfl⟩ := Option.map_eq_some_iff.1 h
  exact ⟨rules, hf, rfl⟩

theorem hasLocal_add (h : HasLocal s) (hs : s.onRules (add r) = some s') :
    HasLocal s' := by
  obtain ⟨protocol, hmem⟩ := h
  obtain ⟨rules, hadd, rfl⟩ := onRules_eq_some hs
  exact ⟨protocol, (mem_of_add hadd).2 (.inr hmem)⟩

theorem hasLocal_delSource {p : Prefix} (h : HasLocal s)
    (hs : s.onRules (del 0 (srcOf p) .transit none) = some s') : HasLocal s' := by
  obtain ⟨protocol, hmem⟩ := h
  obtain ⟨rules, hdel, rfl⟩ := onRules_eq_some hs
  exact ⟨protocol, mem_of_del hdel hmem (by simp [hasFields, localRule])⟩

variable {c : Config}

variable {I : Command.Traced State → Prop}

theorem keeps_raiseIf (bad : Prop) [Decidable bad] (e : Failure) :
    Keeps I (raiseIf bad e) :=
  Triple.ite (fun _ => .fail fun _ h => h) fun _ => .pure fun _ h => h

theorem keeps_parsed {α : Type} (r : Except PyError α) :
    Keeps I (parsed r) := by
  cases r with
  | ok a => exact .pure a
  | error e => exact Triple.fail fun _ h => h

theorem keeps_now :
    Keeps I (Command.now : Act State) := fun _ h => h

/-- The twin is there before the old rule is deleted. -/
theorem keeps_replaceLocal {old new : Protocol} (hne : new ≠ old) :
    Keeps (Traced.Always HasLocal) (replaceLocal old new) := by
  have hadd : ∀ s s', HasLocal s → True → s.onRules (add (localRule new)) = some s' →
      HasLocal s' ∧ localRule new ∈ s'.rules := by
    intro s s' h _ hs
    refine ⟨hasLocal_add h hs, ?_⟩
    obtain ⟨rules, hadd, rfl⟩ := onRules_eq_some hs
    exact (mem_of_add hadd).2 (.inl rfl)
  have hdel : ∀ s s', HasLocal s → localRule new ∈ s.rules →
      s.onRules (del 0 none .lookupLocal (some old)) = some s' → HasLocal s' ∧ True := by
    intro s s' _ hmem hs
    obtain ⟨rules, hdel, rfl⟩ := onRules_eq_some hs
    exact ⟨⟨new, mem_of_del hdel hmem (by simp [hasFields, localRule, hne])⟩, trivial⟩
  have htriple := (Triple.run (e := Failure.called) hadd).bind fun _ =>
    Triple.run (e := Failure.called) hdel
  exact htriple.conseq (fun _ h => ⟨h, trivial⟩) (fun _ _ h => h.1) fun _ _ h => h

theorem keeps_prepare (found : Found) (sources : List Prefix) (current : List PolicyRule)
    (m : Option Marker) :
    Keeps (Traced.Always HasLocal) (prepare found sources current m) := by
  cases m with
  | some m => exact keeps_raiseIf _ _
  | none =>
    refine (keeps_raiseIf _ _).bind fun _ => (keeps_raiseIf _ _).bind fun _ =>
      (keeps_raiseIf _ _).bind fun _ => ?_
    split
    · exact Triple.fail fun _ h => h
    · refine Keeps.run fun s s' h hs => ?_
      cases hs
      exact h

theorem keeps_addSources (current : List PolicyRule) (sources : List Prefix) :
    Keeps (Traced.Always HasLocal) (addSources current sources) := by
  induction sources with
  | nil => exact .pure ()
  | cons p ps ih =>
    refine Keeps.bind (Triple.ite (fun _ => .pure fun _ h => h) fun _ => ?_)
      fun _ => ih
    exact Keeps.run fun s s' h hs => hasLocal_add h hs

theorem keeps_delSources (sources : List Prefix) :
    Keeps (Traced.Always HasLocal) (delSources sources) := by
  induction sources with
  | nil => exact .pure ()
  | cons p ps ih =>
    exact (Keeps.attempt fun s s' h hs => hasLocal_delSource h hs).bind fun _ => ih

theorem keeps_moveLocal : Keeps (Traced.Always HasLocal) moveLocal := by
  refine keeps_now.bind fun s => ?_
  split
  · rename_i l last _ _
    refine Triple.ite (fun _ => keeps_replaceLocal ?_) fun _ => .pure fun _ h => h
    -- The new protocol is not the old one.
    split_ifs with hstatic
    · exact fun h => hstatic h.symm
    · rw [not_not.1 hstatic]
      decide
  · exact Triple.fail fun _ h => h

theorem keeps_restoreLocal (original : Protocol) :
    Keeps (Traced.Always HasLocal) (restoreLocal original) := by
  refine keeps_now.bind fun s => ?_
  split
  · exact Triple.fail fun _ h => h
  · exact Triple.ite (fun h => keeps_replaceLocal (Ne.symm h)) fun _ => .pure fun _ h => h

theorem keeps_exec (c : Config) (sc : Script) :
    Keeps (Traced.Always HasLocal) (sc.exec c) := by
  cases sc with
  | start found =>
    refine (keeps_parsed _).bind fun sources => keeps_now.bind fun s => ?_
    exact (keeps_prepare _ _ _ _).bind fun _ => (keeps_raiseIf _ _).bind fun _ =>
      (keeps_addSources _ _).bind fun _ => keeps_moveLocal.bind fun _ => keeps_raiseIf _ _
  | stop =>
    refine (keeps_parsed _).bind fun sources => keeps_now.bind fun s => ?_
    split
    · exact .pure ()
    · refine (keeps_delSources _).bind fun _ => (keeps_restoreLocal _).bind fun _ => ?_
      refine Keeps.run fun s s' h hs => ?_
      cases hs
      exact h

/-- Every state that a run passes through has a local rule. -/
theorem hasLocal_trace {s : State} (h : HasLocal s) (sc : Script) :
    (sc.trace c s).2.Always HasLocal :=
  (keeps_exec c sc).snd ⟨h, fun _ hs => List.mem_singleton.1 hs ▸ h⟩

/-- So it is after any runs, interrupted or not. -/
theorem hasLocal_of_reachable {s₀ s : State} (h₀ : HasLocal s₀) (h : (runs c s₀).Reachable s) :
    HasLocal s := by
  refine h.invariant (fun s hs => hs ▸ h₀) fun s a s' hs hstep => ?_
  obtain ⟨hnow, hseen⟩ := hasLocal_trace (c := c) hs a.1
  rw [runs] at hstep
  simp only at hstep
  split_ifs at hstep
  · exact hseen s' hstep
  · exact hstep ▸ hnow

end Kept

/-! ## Runs that are not interrupted -/

section Order

variable {c : Config} {sources : List Prefix} {rest : List PolicyRule} {p₀ : Protocol}

/-- No rule of a source for the table of transit comes after a local rule. -/
def SourcesFirst (sources : List Prefix) (rules : List PolicyRule) : Prop :=
  rules.Pairwise fun l r => isHostLocal l = true → ¬ (r.table = .transit ∧ r.src ∈ sources.map srcOf)

/-- The sources are distinct, and none of them has a rule of another priority for the
    table of transit. -/
structure Clear (sources : List Prefix) (rest : List PolicyRule) : Prop where
  nodup : (sources.map srcOf).Nodup
  clear : ∀ r ∈ rest, r.table = .transit → r.src ∉ sources.map srcOf

/-- The rules there are at first. -/
def idle (p₀ : Protocol) (rest : List PolicyRule) : List PolicyRule := localRule p₀ :: rest

/-- The rules while transit is started, the local rule under some protocol. -/
def started (sources : List Prefix) (q : Protocol) (rest : List PolicyRule) : List PolicyRule :=
  sources.map sourceRule ++ localRule q :: rest

/-- A rule of priority 0 is added after those there are. -/
theorem add_zero {zero : List PolicyRule} {r : PolicyRule} (hz : ∀ x ∈ zero, x.priority = 0)
    (hrest : ∀ x ∈ rest, 0 < x.priority) (hr : r.priority = 0) (hnew : r ∉ zero) :
    add r (zero ++ rest) = some (zero ++ r :: rest) := by
  have hmem : r ∉ zero ++ rest := by
    rw [List.mem_append, not_or]
    exact ⟨hnew, fun h => absurd (hrest r h) (by omega)⟩
  have hall : ∀ x ∈ zero, decide (x.priority ≤ r.priority) = true := fun x hx => by
    simp [hz x hx]
  have hnone : rest.takeWhile (fun x => decide (x.priority ≤ r.priority)) = [] ∧
      rest.dropWhile (fun x => decide (x.priority ≤ r.priority)) = rest := by
    cases rest with
    | nil => exact ⟨rfl, rfl⟩
    | cons x rest =>
      have hx : ¬ decide (x.priority ≤ r.priority) = true := by
        have := hrest x List.mem_cons_self
        simp only [decide_eq_true_eq]
        omega
      exact ⟨List.takeWhile_cons_of_neg hx, List.dropWhile_cons_of_neg hx⟩
  rw [add, if_neg hmem, List.takeWhile_append_of_pos hall, List.dropWhile_append_of_pos hall,
    hnone.1, hnone.2, List.append_nil]

theorem del_sourceRule (p : Prefix) (l : List PolicyRule) :
    del 0 (srcOf p) .transit none (sourceRule p :: l) = some l := by
  simp [del, hasFields, sourceRule]

theorem del_idle (hrest : ∀ x ∈ rest, 0 < x.priority) (p : Prefix) (q : Protocol) :
    del 0 (srcOf p) .transit none (idle q rest) = none := by
  rw [del, if_neg]
  simp only [idle, List.any_cons, Bool.or_eq_true, List.any_eq_true, not_or, not_exists, not_and]
  refine ⟨by simp [hasFields, localRule], fun x hx h => ?_⟩
  have hpos := hrest x hx
  simp only [hasFields, decide_eq_true_eq] at h
  omega

variable {E : Failure → Command.Traced State → Prop}

/-- The twin of the local rule is added after the rules of priority 0, and the old rule
    is deleted. -/
theorem replaceLocal_spec {a b : List PolicyRule} {m : Option Marker} {old new : Protocol}
    (ha : ∀ x ∈ a, x.priority = 0 ∧ x.table = .transit)
    (hb : ∀ x ∈ b, x.priority = 0 ∧ x.table = .transit) (hrest : ∀ x ∈ rest, 0 < x.priority)
    (hne : new ≠ old) :
    Triple (fun t => t.now = ⟨a ++ localRule old :: b ++ rest, m⟩) (replaceLocal old new)
      (fun _ t => t.now = ⟨a ++ b ++ localRule new :: rest, m⟩) E := by
  have hadd : State.onRules (add (localRule new)) ⟨a ++ localRule old :: b ++ rest, m⟩ =
      some ⟨a ++ localRule old :: (b ++ localRule new :: rest), m⟩ := by
    have htransit : ∀ x : PolicyRule, x.table = .transit → localRule new ≠ x := by
      rintro x hx rfl
      cases hx
    rw [State.onRules, add_zero ?_ hrest rfl ?_, Option.map_some, List.append_assoc,
      List.cons_append]
    · intro x hx
      rcases List.mem_append.1 hx with hx | hx
      · exact (ha x hx).1
      · rcases List.mem_cons.1 hx with rfl | hx
        · rfl
        · exact (hb x hx).1
    · rw [List.mem_append, List.mem_cons, not_or, not_or]
      refine ⟨fun hx => htransit _ (ha _ hx).2 rfl, fun h => hne ?_, fun hx =>
        htransit _ (hb _ hx).2 rfl⟩
      exact congrArg PolicyRule.protocol h
  have hdel : State.onRules (del 0 none .lookupLocal (some old))
      ⟨a ++ localRule old :: (b ++ localRule new :: rest), m⟩ =
      some ⟨a ++ b ++ localRule new :: rest, m⟩ := by
    have hold : hasFields 0 none .lookupLocal (some old) (localRule old) = true := by
      simp [hasFields, localRule]
    have hskip : ∀ x ∈ a, ¬ hasFields 0 none .lookupLocal (some old) x = true := by
      intro x hx h
      simp [hasFields, (ha x hx).2] at h
    rw [State.onRules, del, if_pos (List.any_eq_true.2
      ⟨localRule old, List.mem_append_right _ List.mem_cons_self, hold⟩),
      List.eraseP_append_right _ hskip, List.eraseP_cons_of_pos hold, Option.map_some,
      List.append_assoc]
  exact (Triple.run_some hadd).bind fun _ => .run_some hdel

/-- A rule for the table of transit is not after the last one. -/
theorem le_lastOwned (a b : List PolicyRule) {r : PolicyRule} (hr : r.table = .transit) :
    ∃ last, lastOwned (a ++ r :: b) = some last ∧ a.length ≤ last := by
  have hrev : (a ++ r :: b).reverse = b.reverse ++ r :: a.reverse := by simp
  have hlt : b.length < (a ++ r :: b).reverse.length := by simp
  have hget : (a ++ r :: b).reverse[b.length] = r := by
    simp [hrev]
  have hle : (a ++ r :: b).reverse.findIdx (·.table = .transit) ≤ b.length := by
    by_contra hgt
    have hnot := List.not_of_lt_findIdx (not_le.1 hgt)
    rw [hget] at hnot
    simp [hr] at hnot
  refine ⟨(a ++ r :: b).length - 1 - (a ++ r :: b).reverse.findIdx (·.table = .transit), ?_, ?_⟩
  · rw [lastOwned, List.findIdx?_eq_some_of_exists ⟨r, by simp, by simp [hr]⟩, Option.map_some]
  · rw [List.length_append, List.length_cons]
    omega

theorem sourceRule_fields : ∀ x ∈ sources.map sourceRule, x.priority = 0 ∧ x.table = .transit := by
  intro x hx
  obtain ⟨p, _, rfl⟩ := List.mem_map.1 hx
  exact ⟨rfl, rfl⟩

theorem isHostLocal_localRule (q : Protocol) : isHostLocal (localRule q) = true := by
  simp [isHostLocal, localRule]

theorem twin_ne (q : Protocol) : (if q ≠ .static then Protocol.static else .boot) ≠ q := by
  split_ifs with h
  · exact fun h' => h h'.symm
  · rw [not_not.1 h]
    decide

/-- The local rule is the first one for local addresses. -/
theorem find_isHostLocal {a l : List PolicyRule} (ha : ∀ x ∈ a, x.table = .transit) (q : Protocol) :
    (a ++ localRule q :: l).find? isHostLocal = some (localRule q) ∧
      (a ++ localRule q :: l).findIdx isHostLocal = a.length := by
  have hskip : ∀ x ∈ a, isHostLocal x = false := fun x hx => by simp [isHostLocal, ha x hx]
  constructor
  · rw [List.find?_append, List.find?_eq_none.2 fun x hx => by simp [hskip x hx], Option.none_or,
      List.find?_cons_of_pos (isHostLocal_localRule q)]
  · rw [List.findIdx_append, if_neg, List.findIdx_cons, isHostLocal_localRule]
    · exact Nat.zero_add _
    · rw [List.findIdx_lt_length]
      rintro ⟨x, hx, h⟩
      rw [hskip x hx] at h
      cases h

variable {m : Option Marker} (hrest : ∀ x ∈ rest, 0 < x.priority)

include hrest

/-- The first move: the local rule comes after the rules of the sources. -/
theorem moveLocal_first (hne : sources ≠ []) :
    Triple (fun t => t.now = ⟨localRule p₀ :: sources.map sourceRule ++ rest, m⟩) moveLocal
      (fun _ t => ∃ q, t.now = ⟨started sources q rest, m⟩) E := by
  refine .now_bind ?_
  obtain ⟨p, ps, rfl⟩ := List.exists_cons_of_ne_nil hne
  have hfind := find_isHostLocal (a := []) (l := (p :: ps).map sourceRule ++ rest)
    (List.forall_mem_nil _) p₀
  obtain ⟨last, hlast, hle⟩ := le_lastOwned [localRule p₀] (ps.map sourceRule ++ rest)
    (r := sourceRule p) rfl
  have hlast' : lastOwned (localRule p₀ :: (p :: ps).map sourceRule ++ rest) = some last := hlast
  rw [List.nil_append, ← List.cons_append] at hfind
  simp only [hfind.1, hfind.2, hlast', List.length_nil]
  rw [if_pos (show 0 < last from hle)]
  refine Triple.conseq (replaceLocal_spec (a := []) (List.forall_mem_nil _)
    sourceRule_fields hrest (twin_ne p₀) (m := m) (E := E)) (fun t ht => ht) (fun _ t ht => ⟨_, ht⟩)
    fun _ _ h => h

variable {q : Protocol}

/-- Later moves leave the local rule where it is. -/
theorem moveLocal_started :
    Triple (fun t => t.now = ⟨started sources q rest, m⟩) moveLocal
      (fun _ t => ∃ q, t.now = ⟨started sources q rest, m⟩)
      fun _ t => ∃ q, t.now = ⟨started sources q rest, m⟩ := by
  refine .now_bind ?_
  have hfind := find_isHostLocal (a := sources.map sourceRule) (l := rest)
    (fun x hx => (sourceRule_fields x hx).2) q
  simp only [started, hfind.1, hfind.2]
  cases hlast : lastOwned (sources.map sourceRule ++ localRule q :: rest) with
  | none => exact .fail fun t ht => ⟨q, ht⟩
  | some last =>
    refine .ite (fun _ => ?_) fun _ => .pure fun t ht => ⟨q, ht⟩
    have hreplace := replaceLocal_spec (a := sources.map sourceRule) (b := []) sourceRule_fields
      (List.forall_mem_nil _) hrest (twin_ne q) (m := m)
      (E := fun _ t => ∃ q, t.now = ⟨started sources q rest, m⟩)
    rw [List.append_assoc, List.cons_append, List.nil_append, List.append_nil] at hreplace
    exact hreplace.conseq (fun t ht => ht) (fun _ t ht => ⟨_, ht⟩) fun _ _ h => h

/-- Sources that are not listed are added, in their order. -/
theorem addSources_new {current : List PolicyRule} {done todo : List Prefix}
    (hnodup : ((done ++ todo).map srcOf).Nodup)
    (hcurrent : ∀ p ∈ todo, current.any (matchesSource p) = false) :
    Triple (fun t => t.now = ⟨localRule p₀ :: done.map sourceRule ++ rest, m⟩)
      (addSources current todo)
      (fun _ t => t.now = ⟨localRule p₀ :: (done ++ todo).map sourceRule ++ rest, m⟩) E := by
  induction todo generalizing done with
  | nil =>
    rw [List.append_nil]
    exact .pure fun _ h => h
  | cons p todo ih =>
    rw [List.forall_mem_cons] at hcurrent
    rw [addSources, hcurrent.1, if_neg Bool.false_ne_true]
    have hnew : sourceRule p ∉ localRule p₀ :: done.map sourceRule := by
      rw [List.mem_cons, not_or]
      refine ⟨(fun h => by cases congrArg PolicyRule.table h), fun h => ?_⟩
      obtain ⟨p', hp', heq⟩ := List.mem_map.1 h
      rw [List.map_append, List.nodup_append] at hnodup
      exact hnodup.2.2 (srcOf p') (List.mem_map_of_mem hp') (srcOf p)
        (List.mem_map_of_mem List.mem_cons_self) (congrArg PolicyRule.src heq)
    have hzero : ∀ x ∈ localRule p₀ :: done.map sourceRule, x.priority = 0 :=
      List.forall_mem_cons.2 ⟨rfl, fun x hx => (sourceRule_fields x hx).1⟩
    have hadd : State.onRules (add (sourceRule p)) ⟨localRule p₀ :: done.map sourceRule ++ rest, m⟩ =
        some ⟨localRule p₀ :: (done ++ [p]).map sourceRule ++ rest, m⟩ := by
      rw [State.onRules, add_zero hzero hrest rfl hnew, Option.map_some, List.map_append]
      simp
    have hih := @ih (done ++ [p]) (by rwa [List.append_assoc, List.singleton_append]) hcurrent.2
    rw [List.append_assoc, List.singleton_append] at hih
    exact (Triple.run_some hadd).bind fun _ => hih

omit hrest in
/-- Once transit is started, the sources are listed, and none is added. -/
theorem addSources_started {todo : List Prefix} (htodo : ∀ p ∈ todo, p ∈ sources) :
    Triple (fun t => t.now = ⟨started sources q rest, m⟩)
      (addSources (started sources q rest) todo)
      (fun _ t => t.now = ⟨started sources q rest, m⟩)
      fun _ t => t.now = ⟨started sources q rest, m⟩ := by
  induction todo with
  | nil => exact .pure fun _ h => h
  | cons p todo ih =>
    rw [List.forall_mem_cons] at htodo
    refine Triple.bind (Q := fun _ t => t.now = ⟨started sources q rest, m⟩) ?_ fun _ =>
      ih htodo.2
    refine .ite (fun _ => .pure fun _ h => h) fun _ => .run_none ?_
    -- The network of all sources is never listed; its rule is there all the same.
    have hmem : sourceRule p ∈ started sources q rest :=
      List.mem_append_left _ (List.mem_map_of_mem htodo.1)
    rw [State.onRules, add, if_pos hmem, Option.map_none]

omit hrest in
theorem delSources_started :
    Triple (fun t => t.now = ⟨started sources q rest, m⟩) (delSources sources)
      (fun _ t => t.now = ⟨idle q rest, m⟩) E := by
  induction sources with
  | nil => exact .pure fun _ h => h
  | cons p ps ih =>
    have hdel : State.onRules (del 0 (srcOf p) .transit none) ⟨started (p :: ps) q rest, m⟩ =
        some ⟨started ps q rest, m⟩ := by
      rw [State.onRules, started, List.map_cons, List.cons_append, del_sourceRule]
      rfl
    exact (Triple.attempt_some hdel).bind fun _ => ih

theorem delSources_idle :
    Triple (fun t => t.now = ⟨idle q rest, m⟩) (delSources sources)
      (fun _ t => t.now = ⟨idle q rest, m⟩) E := by
  induction sources with
  | nil => exact .pure fun _ h => h
  | cons p ps ih =>
    have hdel : State.onRules (del 0 (srcOf p) .transit none) ⟨idle q rest, m⟩ = none := by
      rw [State.onRules, del_idle hrest, Option.map_none]
    exact (Triple.attempt_none hdel).bind fun _ => ih

theorem restoreLocal_spec :
    Triple (fun t => t.now = ⟨idle q rest, m⟩) (restoreLocal p₀)
      (fun _ t => t.now = ⟨idle p₀ rest, m⟩) E := by
  refine .now_bind ?_
  have hfind : (idle q rest).find? isLocal = some (localRule q) :=
    List.find?_cons_of_pos (by simp [isLocal, localRule])
  simp only [hfind]
  refine .ite (fun h => ?_) fun h => .pure fun t ht => ?_
  · exact replaceLocal_spec (a := []) (b := []) (List.forall_mem_nil _)
      (List.forall_mem_nil _) hrest (Ne.symm h)
  · have hq : q = p₀ := not_not.1 h
    rw [ht, hq]

omit hrest in
theorem raiseIf_spec {P : Traced State → Prop} {bad : Prop} [Decidable bad] {e : Failure}
    (hE : ∀ t, P t → E e t) :
    Triple P (raiseIf bad e) (fun _ => P) E :=
  .ite (fun _ => .fail hE) fun _ => .pure fun _ h => h

/-- The states between runs that are not interrupted: transit is not started, with or
    without the marker, or it is. -/
inductive Steady (sources : List Prefix) (p₀ : Protocol) (rest : List PolicyRule) : State → Prop
  | idle : Steady sources p₀ rest ⟨Transit.idle p₀ rest, none⟩
  | marked : Steady sources p₀ rest ⟨Transit.idle p₀ rest, some ⟨sources, p₀⟩⟩
  | started (q : Protocol) :
    Steady sources p₀ rest ⟨Transit.started sources q rest, some ⟨sources, p₀⟩⟩

/-- From the rules there are at first, the rules of the sources come to stand before the
    local rule. -/
theorem startMarked_idle (hclear : Clear sources rest) (hne : sources ≠ []) :
    Triple (fun t => t.now = ⟨idle p₀ rest, some ⟨sources, p₀⟩⟩)
      (startMarked c (idle p₀ rest) sources)
      (fun _ t => ∃ q, t.now = ⟨started sources q rest, some ⟨sources, p₀⟩⟩)
      fun _ t => Steady sources p₀ rest t.now := by
  have hlisted : ∀ p ∈ sources, (idle p₀ rest).any (matchesSource p) = false := by
    intro p hp
    rw [List.any_eq_false]
    intro x hx hmatch
    obtain ⟨htable, _, hsrc⟩ : x.table = .transit ∧ x.src ≠ none ∧ x.src = srcOf p := by
      simpa [matchesSource] using hmatch
    rcases List.mem_cons.1 hx with rfl | hx
    · cases htable
    · exact hclear.clear x hx htable (hsrc ▸ List.mem_map_of_mem hp)
  have hadd : Triple
      (fun t => t.now = ⟨localRule p₀ :: [].map sourceRule ++ rest, some ⟨sources, p₀⟩⟩)
      (addSources (idle p₀ rest) sources)
      (fun _ t => t.now = ⟨localRule p₀ :: ([] ++ sources).map sourceRule ++ rest,
        some ⟨sources, p₀⟩⟩)
      fun _ t => Steady sources p₀ rest t.now := addSources_new hrest hclear.nodup hlisted
  refine (raiseIf_spec fun t ht => ht ▸ .marked).bind fun _ => hadd.bind fun _ => ?_
  refine (moveLocal_first hrest hne).bind fun _ => raiseIf_spec ?_
  rintro t ⟨q, ht⟩
  exact ht ▸ .started q

theorem startMarked_started :
    Triple (fun t => t.now = ⟨started sources q rest, some ⟨sources, p₀⟩⟩)
      (startMarked c (started sources q rest) sources)
      (fun _ t => ∃ q, t.now = ⟨started sources q rest, some ⟨sources, p₀⟩⟩)
      fun _ t => Steady sources p₀ rest t.now := by
  have hadd : Triple (fun t => t.now = ⟨started sources q rest, some ⟨sources, p₀⟩⟩)
      (addSources (started sources q rest) sources)
      (fun _ t => t.now = ⟨started sources q rest, some ⟨sources, p₀⟩⟩)
      fun _ t => Steady sources p₀ rest t.now :=
    (addSources_started fun p hp => hp).conseq (fun _ h => h) (fun _ _ h => h)
      fun _ t ht => ht ▸ .started q
  have hmove : Triple (fun t => t.now = ⟨started sources q rest, some ⟨sources, p₀⟩⟩)
      moveLocal (fun _ t => ∃ q, t.now = ⟨started sources q rest, some ⟨sources, p₀⟩⟩)
      fun _ t => Steady sources p₀ rest t.now :=
    (moveLocal_started hrest).conseq (fun _ h => h) (fun _ _ h => h)
      fun _ t ⟨q', ht⟩ => ht ▸ .started q'
  refine (raiseIf_spec fun t ht => ht ▸ .started q).bind fun _ => hadd.bind fun _ =>
    hmove.bind fun _ => raiseIf_spec ?_
  rintro t ⟨q', ht⟩
  exact ht ▸ .started q'

omit hrest in
/-- The checks of the first start pass, or it changes nothing. -/
theorem prepare_idle (found : Found) :
    Triple (fun t => t.now = ⟨idle p₀ rest, none⟩)
      (prepare found sources (idle p₀ rest) none)
      (fun _ t => t.now = ⟨idle p₀ rest, some ⟨sources, p₀⟩⟩)
      fun _ t => Steady sources p₀ rest t.now := by
  have hE : ∀ t : Traced State, t.now = ⟨idle p₀ rest, none⟩ →
      Steady sources p₀ rest t.now := fun t ht => ht ▸ .idle
  have hfind : (idle p₀ rest).find? isLocal = some (localRule p₀) :=
    List.find?_cons_of_pos (by simp [isLocal, localRule])
  refine (raiseIf_spec hE).bind fun _ => (raiseIf_spec hE).bind fun _ =>
    (raiseIf_spec hE).bind fun _ => ?_
  simp only [hfind]
  exact .run_some rfl

theorem start_spec (hsources : c.transit.sources = .ok sources) (hclear : Clear sources rest)
    (hne : sources ≠ []) (found : Found) {s : State} (hs : Steady sources p₀ rest s) :
    Triple (fun t => t.now = s) (start found c)
      (fun _ t => ∃ q, t.now = ⟨started sources q rest, some ⟨sources, p₀⟩⟩)
      fun _ t => Steady sources p₀ rest t.now := by
  have hstart : start found c = Command.now >>= fun s =>
      prepare found sources s.rules s.marker >>= fun _ => startMarked c s.rules sources := by
    rw [start, hsources]
    rfl
  rw [hstart]
  refine .now_bind ?_
  cases hs with
  | idle => exact (prepare_idle found).bind fun _ => startMarked_idle hrest hclear hne
  | marked =>
    exact (raiseIf_spec fun t ht => ht ▸ .marked).bind fun _ => startMarked_idle hrest hclear hne
  | started q =>
    exact (raiseIf_spec fun t ht => ht ▸ .started q).bind fun _ => startMarked_started hrest

theorem stop_spec (hsources : c.transit.sources = .ok sources) {s : State}
    (hs : Steady sources p₀ rest s) :
    Triple (fun t => t.now = s) (stop c) (fun _ t => t.now = ⟨idle p₀ rest, none⟩) E := by
  have hstop : stop c = Command.now >>= fun s =>
      match s.marker with
      | none => pure ()
      | some m => delSources sources >>= fun _ => restoreLocal m.localProtocol >>= fun _ =>
          Command.run (fun s => some { s with marker := none }) .called := by
    rw [stop, hsources]
    rfl
  rw [hstop]
  refine .now_bind ?_
  cases hs with
  | idle => exact .pure fun _ h => h
  | marked =>
    exact (delSources_idle hrest).bind fun _ => (restoreLocal_spec hrest).bind fun _ =>
      .run_some rfl
  | started q =>
    exact delSources_started.bind fun _ => (restoreLocal_spec hrest).bind fun _ => .run_some rfl

/-- No rule of a source comes after the local rule between the runs. -/
theorem Steady.sourcesFirst (hclear : Clear sources rest) {s : State}
    (hs : Steady sources p₀ rest s) : SourcesFirst sources s.rules := by
  have hidle : ∀ q, SourcesFirst sources (Transit.idle q rest) := by
    intro q
    refine List.pairwise_cons.2 ⟨fun r hr _ h => hclear.clear r hr h.1 h.2, ?_⟩
    refine List.pairwise_of_forall_mem_list fun l hl r _ hlocal => ?_
    have hpos := hrest l hl
    simp only [isHostLocal, decide_eq_true_eq] at hlocal
    omega
  cases hs with
  | idle => exact hidle p₀
  | marked => exact hidle p₀
  | started q =>
    have hsource : ∀ l ∈ sources.map sourceRule, ∀ r : PolicyRule, isHostLocal l = true →
        ¬ (r.table = .transit ∧ r.src ∈ sources.map srcOf) := by
      intro l hl r hlocal
      have htable := (sourceRule_fields l hl).2
      simp [isHostLocal, htable] at hlocal
    exact List.pairwise_append.2 ⟨List.pairwise_of_forall_mem_list fun l hl r _ => hsource l hl r,
      hidle q, fun l hl r _ => hsource l hl r⟩

end Order

/-- The sources of the configuration, none where they do not parse. -/
def sourceList (c : Config) : List Prefix :=
  match c.transit.sources with
  | .ok sources => sources
  | .error _ => []

theorem sources_ne_nil {c : TransitConfig} {sources : List Prefix} (h : c.sources = .ok sources) :
    sources ≠ [] := by
  rw [TransitConfig.sources] at h
  split at h
  · cases h
    exact List.cons_ne_nil _ _
  · cases h

section Uninterrupted

variable {c : Config} {p₀ : Protocol} {rest : List PolicyRule} (hrest : ∀ x ∈ rest, 0 < x.priority)

include hrest

variable {sources : List Prefix} {s : State} (hsources : c.transit.sources = .ok sources)

include hsources

/-- A run that is not interrupted leaves a steady state. -/
theorem steady_trace (hclear : Clear sources rest)
    (hs : Steady sources p₀ rest s) (sc : Script) :
    Steady sources p₀ rest (sc.trace c s).2.now := by
  cases sc with
  | start found =>
    have hspec := start_spec hrest hsources hclear (sources_ne_nil hsources) found hs
    exact (hspec.conseq (fun _ h => h) (fun _ t ⟨q, ht⟩ => ht ▸ .started q) fun _ _ h => h).snd rfl
  | stop =>
    have hspec := stop_spec hrest hsources (E := fun _ t => Steady sources p₀ rest t.now) hs
    exact (hspec.conseq (fun _ h => h) (fun _ t ht => ht ▸ .idle) fun _ _ h => h).snd rfl

theorem steady_of_run (hclear : Clear sources rest)
    {as : List (Script × Bool)} (hrun : (runs c ⟨idle p₀ rest, none⟩).Run as s)
    (has : ∀ a ∈ as, a.2 = false) :
    Steady sources p₀ rest s := by
  refine hrun.invariant (P := fun as s => (∀ a ∈ as, a.2 = false) → Steady sources p₀ rest s)
    (fun s (hs : s = _) _ => hs ▸ .idle) (fun as s a s' ih hstep has => ?_) has
  have hs := ih fun a' ha' => has a' (List.mem_append_left _ ha')
  rw [runs] at hstep
  simp only [has a (List.mem_append_right _ List.mem_cons_self), if_neg Bool.false_ne_true] at hstep
  exact hstep ▸ steady_trace hrest hsources hclear hs a.1

/-- A start that does not fail has added the rules of the sources. -/
theorem sourceRule_mem_of_start
    (hclear : Clear sources rest) (hs : Steady sources p₀ rest s) {found : Found}
    (hok : ((Script.start found).trace c s).1 = .ok ()) {p : Prefix} (hp : p ∈ sources) :
    sourceRule p ∈ ((Script.start found).trace c s).2.now.rules := by
  obtain ⟨q, hnow⟩ :=
    (start_spec hrest hsources hclear (sources_ne_nil hsources) found hs).of_ok rfl hok
  have hrules : ((Script.start found).trace c s).2.now.rules = started sources q rest :=
    congrArg State.rules hnow
  rw [hrules]
  exact List.mem_append_left _ (List.mem_map_of_mem hp)

theorem trace_stop (hs : Steady sources p₀ rest s) :
    (Script.stop.trace c s).2.now = ⟨idle p₀ rest, none⟩ :=
  (stop_spec hrest hsources (E := fun _ t => t.now = ⟨idle p₀ rest, none⟩) hs).snd rfl

end Uninterrupted

/-- A configuration whose sources do not parse changes nothing. -/
theorem trace_of_error {c : Config} {e : PyError} (h : c.transit.sources = .error e) (sc : Script)
    (s : State) : sc.trace c s = (.error (.raised e), .start s) := by
  cases sc with
  | start found =>
    show start found c _ = _
    rw [start, h]
    rfl
  | stop =>
    show stop c _ = _
    rw [stop, h]
    rfl

theorem eq_of_reachable_error {c : Config} {e : PyError} (h : c.transit.sources = .error e)
    {s₀ s : State} (hs : (runs c s₀).Reachable s) : s = s₀ := by
  refine hs.invariant (P := (· = s₀)) (fun _ h => h) fun s a s' hs hstep => ?_
  rw [runs] at hstep
  simp only [trace_of_error h] at hstep
  split_ifs at hstep
  · exact (List.mem_singleton.1 hstep).trans hs
  · exact hstep.trans hs

namespace Sample

/-- The clients of `ql-awg0`. -/
def clients : Prefix := ⟨.v4 0x0a4d0000, 24, by decide⟩

def config : Config := ⟨⟨some 0x0a080009, some (some clients), some 0xcb007105⟩, some [0x0a080001]⟩

/-- The rules of a host, but for that of local addresses. -/
def others : List PolicyRule :=
  [⟨32766, none, .other 254, .kernel⟩, ⟨32767, none, .other 253, .kernel⟩]

/-- A rule of the administrator's for the source of transit. -/
def manual : PolicyRule := ⟨100, some (.single 0x0a080009), .transit, .boot⟩

end Sample

/-- In every state that the runs of the scripts pass through, interrupted anywhere, there
    is a local rule. While none is interrupted, and as long as no other rule sends a source
    to the table of transit, the rules of the sources come before the local rule after a
    start, and a stop leaves the rules there were at first. -/
theorem local_kept_and_rules_restored (c : Config) (p₀ : Protocol) (rest : List PolicyRule)
    (hrest : ∀ x ∈ rest, 0 < x.priority) :
    (∀ s, (runs c ⟨idle p₀ rest, none⟩).Reachable s → ∀ sc : Script,
      ∀ s' ∈ (sc.trace c s).2.seen, HasLocal s') ∧
    (Clear (sourceList c) rest → ∀ as s, (runs c ⟨idle p₀ rest, none⟩).Run as s →
      (∀ a ∈ as, a.2 = false) →
        (∀ found, SourcesFirst (sourceList c) ((Script.start found).trace c s).2.now.rules ∧
          (((Script.start found).trace c s).1 = .ok () →
            ∀ p ∈ sourceList c, sourceRule p ∈ ((Script.start found).trace c s).2.now.rules)) ∧
        (Script.stop.trace c s).2.now.rules = idle p₀ rest) := by
  refine ⟨fun s hs sc => ?_, fun hclear as s hrun has => ?_⟩
  · have h₀ : HasLocal ⟨idle p₀ rest, none⟩ := ⟨p₀, List.mem_cons_self⟩
    exact (hasLocal_trace (hasLocal_of_reachable h₀ hs) sc).2
  · cases hsources : c.transit.sources with
    | ok sources =>
      have hlist : sourceList c = sources := by rw [sourceList, hsources]
      rw [hlist] at hclear ⊢
      have hs := steady_of_run hrest hsources hclear hrun has
      refine ⟨fun found => ⟨?_, ?_⟩, ?_⟩
      · exact (steady_trace hrest hsources hclear hs (.start found)).sourcesFirst hrest hclear
      · exact fun hok p hp => sourceRule_mem_of_start hrest hsources hclear hs hok hp
      · exact congrArg State.rules (trace_stop hrest hsources hs)
    | error e =>
      have hs := eq_of_reachable_error hsources hrun.reachable
      have hlist : sourceList c = [] := by rw [sourceList, hsources]
      rw [hlist] at hclear ⊢
      refine ⟨fun found => ⟨?_, fun _ p hp => absurd hp List.not_mem_nil⟩, ?_⟩
      · exact List.pairwise_of_forall fun l r _ h => absurd h.2 List.not_mem_nil
      · rw [trace_of_error hsources, hs]
        rfl

theorem local_kept_and_rules_restored_sample :
    Clear (sourceList Sample.config) Sample.others ∧
      (Script.stop.trace Sample.config
        ((Script.start ⟨false, false⟩).trace Sample.config ⟨idle .kernel Sample.others, none⟩).2.now
        ).2.now.rules = idle .kernel Sample.others := by
  have hclear : Clear (sourceList Sample.config) Sample.others := ⟨by decide, by decide⟩
  refine ⟨hclear, ?_⟩
  have hrun := System.Run.step (a := (Script.start ⟨false, false⟩, false))
    (System.Run.init (m := runs Sample.config ⟨idle .kernel Sample.others, none⟩) rfl) rfl
  exact ((local_kept_and_rules_restored Sample.config .kernel Sample.others (by decide)).2 hclear _ _
    hrun (by decide)).2

/-- A rule of another priority is taken for the rule of the source, and comes after the
    local rule when `start` is done. -/
theorem source_after_local :
    (∀ r ∈ Sample.manual :: Sample.others, 0 < r.priority) ∧
      ((Script.start ⟨false, false⟩).trace Sample.config
        ⟨idle .kernel (Sample.manual :: Sample.others), none⟩).1 = .ok () ∧
      ¬ SourcesFirst (sourceList Sample.config)
        ((Script.start ⟨false, false⟩).trace Sample.config
          ⟨idle .kernel (Sample.manual :: Sample.others), none⟩).2.now.rules := by
  refine ⟨by decide, rfl, ?_⟩
  rw [SourcesFirst]
  decide

end QuicLab.Scripts.Transit
