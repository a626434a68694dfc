import QuicLab.Netfilter
import QuicLab.System

/-!
# The firewall scripts

Two scripts manage the firewall of a server: `awg-network.py` for the clients that
enter on `ql-awg0`, and `transit-network.py` for their way out on `ql-exit0`. Each has
its own chains, puts a jump to them first, unless the jump is there already, and leaves
a marker that it has been run. Either is started and stopped with its service. The rules
of AWG alone decide about a packet of a client, once they come first (`clients_confined`).

With transit, clients are to leave on `ql-exit0` or not at all: the chain of transit
drops what goes anywhere else. That depends on which jump comes first:

* when AWG is started after transit, its jump comes first, and its chain accepts
  (`accepted_of_insert`); in particular when the services start in the order they are
  installed with (`transit_bypassed`);
* as long as AWG does not put its jump before that of transit, nothing leaves on
  another interface (`transit_fail_closed`).

The scripts are given what Python makes of the texts in their configuration; routes
and policy rules are left out.
-/

namespace QuicLab.Scripts

open Go Netip Netfilter

export Netfilter (Packet)

/-- The built-in chains the scripts jump from. -/
inductive Hook
  | input
  | forward
  | prerouting
  | postrouting
  deriving DecidableEq

/-- The chains of the scripts. -/
inductive Chain
  | awgIn
  | awgFwd
  | awgNat
  | trFwd
  | trPre
  | trNat
  deriving DecidableEq

/-- The exceptions of the scripts: a value that does not parse, and the errors they
    raise themselves. -/
inductive PyError
  | parse
  | value (text : String)
  | runtime (text : String)

/-- The interface of the AWG clients. -/
def awg0 : Bytes := str "ql-awg0"

/-- The interface of transit. -/
def exit0 : Bytes := str "ql-exit0"

/-! ## Rules -/

/-- The configuration of AWG: its interface, its network, its port, and the networks
    clients may reach; `none` where the text does not parse. -/
structure AwgConfig where
  interface : Bytes
  network : Option Prefix
  port : Option ℤ
  allowed : Option (List Prefix)

/-- The configuration of transit: its source address, the network of the AWG clients,
    if there are any, and its endpoint; `none` where the text does not parse. -/
structure TransitConfig where
  sourceIP : Option (BitVec 32)
  ingress : Option (Option Prefix)
  endpoint : Option (BitVec 32)

/-- The chain `QL_AWG_IN`. -/
def awgInRules (iface : Bytes) (subnet : Prefix) (port : ℤ) (allowed : List Prefix) : List Rule :=
  [⟨[.not (.input iface), .udp port], .accept⟩, ⟨[.input iface, .not (.source subnet)], .drop⟩] ++
    allowed.map (fun cidr => ⟨[.input iface, .destination cidr], .accept⟩) ++
    [⟨[.input iface], .drop⟩]

/-- The chain `QL_AWG_FWD`. -/
def awgFwdRules (iface : Bytes) (subnet : Prefix) (allowed : List Prefix) : List Rule :=
  [⟨[.input iface, .not (.source subnet)], .drop⟩, ⟨[.input iface, .output iface], .drop⟩] ++
    allowed.map (fun cidr => ⟨[.input iface, .destination cidr], .accept⟩) ++
    [⟨[.input iface], .drop⟩, ⟨[.output iface, .established], .accept⟩, ⟨[.output iface], .drop⟩]

/-- `rules` of `awg-network.py`. -/
def awgRules (c : AwgConfig) : Except PyError (List (Chain × List Rule)) :=
  if c.interface ≠ awg0 then .error (.value "Unexpected AWG interface")
  else
    match c.network, c.port with
    | some subnet, some port =>
      if ¬ (1 ≤ port ∧ port ≤ 65535) then .error (.value "Invalid UDP port")
      else
        match c.allowed with
        | none => .error .parse
        | some allowed => .ok
          [(.awgIn, awgInRules c.interface subnet port allowed),
            (.awgFwd, awgFwdRules c.interface subnet allowed),
            (.awgNat, [⟨[.source subnet, .not (.output c.interface)], .masquerade⟩])]
    | _, _ => .error .parse

/-- The rule of transit that keeps clients from leaving elsewhere. -/
def transitDrop : Rule := ⟨[.input awg0, .not (.output exit0)], .drop⟩

/-- The network of the AWG clients, if there are any. -/
def TransitConfig.subnet (c : TransitConfig) : Except PyError (Option Prefix) :=
  match c.ingress with
  | none => .ok none
  | some none => .error .parse
  | some (some subnet) => .ok (some subnet)

/-- `rules` of `transit-network.py`. -/
def transitRules (c : TransitConfig) : Except PyError (List (Chain × List Rule)) :=
  match c.sourceIP, c.subnet, c.endpoint with
  | some source, .ok subnet, some _ => .ok
    [(.trFwd, if subnet.isSome then [transitDrop] else []), (.trPre, []),
      (.trNat, (subnet.toList.map fun s => ⟨[.source s, .output exit0], .snat source⟩) ++
        [⟨[.source (.single source), .output exit0], .snat source⟩])]
  | _, _, _ => .error .parse

/-- The sources transit routes, as its marker keeps them. -/
def TransitConfig.sources (c : TransitConfig) : Except PyError (List Prefix) :=
  match c.sourceIP, c.subnet with
  | some source, .ok subnet => .ok (.single source :: subnet.toList)
  | _, _ => .error .parse

/-! ## Scripts -/

/-- The server: its firewall, and the markers of the scripts, that of transit with the
    sources it was started with. -/
structure Host where
  firewall : Firewall Hook Chain
  awgMarker : Bool
  transitMarker : Option (List Prefix)

/-- `HOOKS` of `awg-network.py`. -/
def awgHooks : List (Hook × Chain) :=
  [(.input, .awgIn), (.forward, .awgFwd), (.postrouting, .awgNat)]

/-- `HOOKS` of `transit-network.py`. -/
def transitHooks : List (Hook × Chain) :=
  [(.forward, .trFwd), (.prerouting, .trPre), (.postrouting, .trNat)]

/-- Does one of the chains exist? -/
def Host.anyChain (h : Host) (hooks : List (Hook × Chain)) : Bool :=
  hooks.any fun e => (h.firewall.chains e.2).isSome

/-- `awg-network.py start`. -/
def awgStart (c : AwgConfig) (h : Host) : Except PyError Unit × Host :=
  match awgRules c with
  | .error e => (.error e, h)
  | .ok content =>
    if !h.awgMarker && h.anyChain awgHooks then
      (.error (.runtime "Unmanaged AWG chain already exists"), h)
    else
      (.ok (),
        { h with
          awgMarker := true
          firewall := (h.firewall.restore content).ensureJumps awgHooks })

/-- `awg-network.py stop`, which leaves its marker. -/
def awgStop (h : Host) : Except PyError Unit × Host :=
  if !h.awgMarker then (.ok (), h)
  else
    let unhooked := awgHooks.foldl (fun fw e => fw.removeJumps e.1 e.2) h.firewall
    (.ok (), { h with firewall := awgHooks.foldl (fun fw e => fw.deleteChain e.1 e.2) unhooked })

/-- What `transit-network.py start` finds in the routing of the server: custom rules of
    priority 0, and routes in its table. -/
structure Routing where
  customRules : Bool
  tableUsed : Bool

/-- `transit-network.py start`. The marker is written before the rules are made. -/
def transitStart (r : Routing) (c : TransitConfig) (h : Host) : Except PyError Unit × Host :=
  match c.sources with
  | .error e => (.error e, h)
  | .ok sources =>
    if h.transitMarker = none ∧ r.customRules then
      (.error (.runtime "Custom priority-0 rules exist; configure transit routing manually"), h)
    else if h.transitMarker = none ∧ r.tableUsed then
      (.error (.runtime "Transit route table is already in use"), h)
    else if h.transitMarker = none ∧ h.anyChain transitHooks then
      (.error (.runtime "Unmanaged transit firewall chain exists"), h)
    else if h.transitMarker ≠ none ∧ h.transitMarker ≠ some sources then
      (.error (.runtime "Disable transit before changing its source/subnet"), h)
    else
      match transitRules c with
      | .error e => (.error e, { h with transitMarker := some sources })
      | .ok content =>
        (.ok (),
          { h with
            transitMarker := some sources
            firewall := (h.firewall.restore content).ensureJumps transitHooks })

/-- `transit-network.py stop`. -/
def transitStop (c : TransitConfig) (h : Host) : Except PyError Unit × Host :=
  match c.sources with
  | .error e => (.error e, h)
  | .ok _ =>
    if h.transitMarker = none then (.ok (), h)
    else
      (.ok (),
        { h with
          transitMarker := none
          firewall := transitHooks.foldl
            (fun fw e => (fw.removeJump e.1 e.2).deleteChain e.1 e.2) h.firewall })

/-- The runs of the scripts. -/
inductive Run
  | awgStart (c : AwgConfig)
  | awgStop
  | transitStart (r : Routing) (c : TransitConfig)
  | transitStop (c : TransitConfig)

/-- What a run of a script does. -/
def Run.exec : Run → Host → Except PyError Unit × Host
  | .awgStart c, h => Scripts.awgStart c h
  | .awgStop, h => Scripts.awgStop h
  | .transitStart r c, h => Scripts.transitStart r c h
  | .transitStop c, h => Scripts.transitStop c h

/-- A server on which no script has run. -/
def Host.initial : Host := ⟨⟨fun _ => [], fun _ => none⟩, false, none⟩

/-- The scripts, run in any order. -/
def network : System Host Run where
  init h := h = Host.initial
  step h r h' := h' = (r.exec h).2

/-! ## The order of the jumps -/

/-- What `rules` of `awg-network.py` gives for the chains of AWG. -/
theorem awgRules_ok {c : AwgConfig} {content : List (Chain × List Rule)}
    (h : awgRules c = .ok content) :
    content.map Prod.fst = [.awgIn, .awgFwd, .awgNat] ∧
      ∃ subnet allowed, c.network = some subnet ∧ c.allowed = some allowed ∧
        (Chain.awgFwd, awgFwdRules awg0 subnet allowed) ∈ content := by
  unfold awgRules at h
  split_ifs at h with hiface
  split at h
  · rename_i subnet port hsubnet _
    split_ifs at h
    split at h
    · cases h
    · rename_i allowed hallowed
      cases h
      refine ⟨rfl, subnet, allowed, hsubnet, hallowed, ?_⟩
      rw [not_not.1 hiface]
      exact List.mem_cons_of_mem _ List.mem_cons_self
  · cases h

/-- With AWG clients, the chain of transit is its one rule. -/
theorem transitRules_ok {c : TransitConfig} {content : List (Chain × List Rule)}
    (h : transitRules c = .ok content) (hingress : c.ingress.isSome) :
    content.map Prod.fst = [.trFwd, .trPre, .trNat] ∧
      (Chain.trFwd, [transitDrop]) ∈ content := by
  unfold transitRules at h
  split at h
  · rename_i source subnet _ _ hsubnet _
    cases h
    refine ⟨rfl, ?_⟩
    obtain ⟨ingress, hin⟩ := Option.isSome_iff_exists.1 hingress
    rw [TransitConfig.subnet, hin] at hsubnet
    cases ingress with
    | none => cases hsubnet
    | some s =>
      cases hsubnet
      exact List.mem_cons_self
  · cases h

/-- Once the sources parse, only the endpoint can fail to. -/
theorem transitRules_of_sources {c : TransitConfig} {sources : List Prefix}
    (h : c.sources = .ok sources) (hendpoint : c.endpoint.isSome) :
    ∃ content, transitRules c = .ok content := by
  obtain ⟨endpoint, hendpoint⟩ := Option.isSome_iff_exists.1 hendpoint
  unfold TransitConfig.sources at h
  split at h
  · rename_i source subnet hsource hsubnet
    rw [transitRules, hsource, hsubnet, hendpoint]
    exact ⟨_, rfl⟩
  · cases h

/-- AWG does not put its jump before that of transit, and transit is started with the
    network of the AWG clients and an endpoint that parses. -/
def Ordered (h : Host) : Run → Prop
  | .awgStart _ => .trFwd ∈ h.firewall.jumps .forward → .awgFwd ∈ h.firewall.jumps .forward
  | .transitStart _ c => c.ingress.isSome ∧ c.endpoint.isSome
  | _ => True

/-- While transit is started, its jump is the first one, and its chain drops. -/
structure Guarded (h : Host) : Prop where
  started : h.transitMarker ≠ none → ∃ rest, h.firewall.jumps .forward = .trFwd :: rest ∧
    .trFwd ∉ rest ∧ h.firewall.chains .trFwd = some [transitDrop]
  stopped : h.transitMarker = none → .trFwd ∉ h.firewall.jumps .forward

namespace Guarded

variable {h : Host}

theorem awgStart (hg : Guarded h) {c : AwgConfig} (hord : Ordered h (.awgStart c)) :
    Guarded (Scripts.awgStart c h).2 := by
  unfold Scripts.awgStart
  split
  · exact hg
  · rename_i content hcontent
    split_ifs
    · exact hg
    · have hchain : ((h.firewall.restore content).ensureJumps awgHooks).chains .trFwd =
          h.firewall.chains .trFwd := by
        rw [Firewall.chains_ensureJumps, Firewall.chains_restore_of_notMem]
        rw [(awgRules_ok hcontent).1]
        decide
      have hjumps := (h.firewall.restore content).jumps_ensureJumps (l := awgHooks) (by decide)
        (h := .forward) (c := .awgFwd) (by decide)
      refine ⟨fun hm => ?_, fun hm => ?_⟩
      · obtain ⟨rest, hrest, hnot, hrules⟩ := hg.started hm
        have hmem : .awgFwd ∈ h.firewall.jumps .forward := hord (hrest ▸ List.mem_cons_self)
        refine ⟨rest, ?_, hnot, hchain.trans hrules⟩
        exact hjumps.trans ((if_pos hmem).trans hrest)
      · rw [hjumps]
        split_ifs
        · exact hg.stopped hm
        · exact fun hmem => hg.stopped hm ((List.mem_cons.1 hmem).resolve_left (by decide))

theorem awgStop (hg : Guarded h) : Guarded (Scripts.awgStop h).2 := by
  unfold Scripts.awgStop
  split_ifs
  · exact hg
  · refine ⟨fun hm => ?_, fun hm hmem => ?_⟩
    · obtain ⟨rest, hrest, hnot, hrules⟩ := hg.started hm
      refine ⟨rest.filter (· ≠ .awgFwd), ?_, fun hmem => hnot (List.mem_filter.1 hmem).1, hrules⟩
      have hfilter : (h.firewall.jumps .forward).filter (· ≠ .awgFwd) =
          .trFwd :: rest.filter (· ≠ .awgFwd) := by
        rw [hrest]
        rfl
      exact hfilter
    · have hmem' : Chain.trFwd ∈ (h.firewall.jumps .forward).filter (· ≠ .awgFwd) := hmem
      exact hg.stopped hm (List.mem_filter.1 hmem').1

theorem transitStart (hg : Guarded h) {r : Routing} {c : TransitConfig}
    (hord : Ordered h (.transitStart r c)) : Guarded (Scripts.transitStart r c h).2 := by
  unfold Scripts.transitStart
  split
  · exact hg
  · rename_i sources hsources
    split_ifs
    · exact hg
    · exact hg
    · exact hg
    · exact hg
    · obtain ⟨content, hcontent⟩ := transitRules_of_sources hsources hord.2
      obtain ⟨hchains, hdrop⟩ := transitRules_ok hcontent hord.1
      rw [hcontent]
      have hchain : ((h.firewall.restore content).ensureJumps transitHooks).chains .trFwd =
          some [transitDrop] := by
        rw [Firewall.chains_ensureJumps]
        exact h.firewall.chains_restore (by rw [hchains]; decide) hdrop
      have hjumps := (h.firewall.restore content).jumps_ensureJumps (l := transitHooks) (by decide)
        (h := .forward) (c := .trFwd) (by decide)
      refine ⟨fun _ => ?_, fun hnone => (nomatch hnone)⟩
      by_cases hm : h.transitMarker = none
      · have hnot := hg.stopped hm
        exact ⟨_, hjumps.trans (if_neg hnot), hnot, hchain⟩
      · obtain ⟨rest, hrest, hnot, _⟩ := hg.started hm
        have hmem : .trFwd ∈ h.firewall.jumps .forward := hrest ▸ List.mem_cons_self
        exact ⟨rest, hjumps.trans ((if_pos hmem).trans hrest), hnot, hchain⟩

theorem transitStop (hg : Guarded h) (c : TransitConfig) : Guarded (Scripts.transitStop c h).2 := by
  unfold Scripts.transitStop
  split
  · exact hg
  · split_ifs with hm
    · exact hg
    · obtain ⟨rest, hrest, hnot, _⟩ := hg.started hm
      refine ⟨fun hne => absurd rfl hne, fun _ hmem => hnot ?_⟩
      have hmem' : Chain.trFwd ∈ (h.firewall.jumps .forward).erase .trFwd := hmem
      rwa [hrest, List.erase_cons_head] at hmem'

end Guarded

theorem guarded_of_reachable {h : Host} (hr : (network.restrict Ordered).Reachable h) :
    Guarded h := by
  refine hr.invariant (P := Guarded) ?_ ?_
  · rintro _ rfl
    exact ⟨fun hm => absurd rfl hm, fun _ => List.not_mem_nil⟩
  · rintro h r _ hg ⟨hord, rfl⟩
    cases r with
    | awgStart c => exact hg.awgStart hord
    | awgStop => exact hg.awgStop
    | transitStart r c => exact hg.transitStart hord
    | transitStop c => exact hg.transitStop c

/-- What is decided about a packet of a client. -/
theorem decideRules_awgFwdRules (subnet : Prefix) (allowed : List Prefix) {p : Packet}
    (hin : p.input = awg0) : decideRules (awgFwdRules awg0 subnet allowed) p =
      some (if subnet.contains (.v4 p.src) = true ∧ p.output ≠ awg0 ∧
        ∃ cidr ∈ allowed, cidr.contains (.v4 p.dst) = true then .accept else .drop) := by
  rw [awgFwdRules, List.append_assoc, List.cons_append, List.cons_append, List.nil_append]
  by_cases hsrc : subnet.contains (.v4 p.src) = true
  · rw [decideRules_of_not_applies (by simp [Rule.applies, Match.holds, hsrc])]
    by_cases hout : p.output = awg0
    · rw [decideRules_of_applies (by simp [Rule.applies, Match.holds, hin, hout]),
        if_neg fun h => h.2.1 hout]
    · rw [decideRules_of_not_applies (by simp [Rule.applies, Match.holds, hout]),
        decideRules_append (t := .accept) (by simp),
        decideRules_of_applies (by simp [Rule.applies, Match.holds, hin])]
      simp [Rule.applies, Match.holds, hin, hsrc, hout, apply_ite some]
  · rw [decideRules_of_applies (by simp [Rule.applies, Match.holds, hin, hsrc]),
      if_neg fun h => hsrc h.1]

section Insert

variable {h : Host} {c : AwgConfig} {subnet : Prefix} {allowed : List Prefix} {p : Packet}
  (hinsert : .awgFwd ∉ h.firewall.jumps .forward) (hok : (awgStart c h).1 = .ok ())
  (hsubnet : c.network = some subnet) (hallowed : c.allowed = some allowed)

include hinsert hok hsubnet hallowed

/-- When AWG puts its jump into the firewall, its rules come first. -/
theorem verdict_of_insert {t : Target}
    (hdecide : decideRules (awgFwdRules awg0 subnet allowed) p = some t) :
    (awgStart c h).2.firewall.verdict .forward p = some t := by
  unfold awgStart at hok ⊢
  split at hok
  · cases hok
  · rename_i content hcontent
    split_ifs at hok ⊢ with hmanaged
    obtain ⟨hchains, subnet', allowed', hsubnet', hallowed', hrules⟩ := awgRules_ok hcontent
    cases hsubnet.symm.trans hsubnet'
    cases hallowed.symm.trans hallowed'
    have hjumps := (h.firewall.restore content).jumps_ensureJumps (l := awgHooks) (by decide)
      (h := .forward) (c := .awgFwd) (by decide)
    have hchain : ((h.firewall.restore content).ensureJumps awgHooks).chains .awgFwd =
        some (awgFwdRules awg0 subnet allowed) := by
      rw [Firewall.chains_ensureJumps]
      exact h.firewall.chains_restore (by rw [hchains]; decide) hrules
    exact Firewall.verdict_of_jumps_eq (hjumps.trans (if_neg hinsert)) hchain hdecide

/-- When AWG puts its jump before that of transit, its clients reach the networks they
    are allowed to on any interface. -/
theorem accepted_of_insert (hin : p.input = awg0)
    (hout : p.output ≠ awg0) (hsrc : subnet.contains (.v4 p.src) = true) {cidr : Prefix}
    (hcidr : cidr ∈ allowed) (hdst : cidr.contains (.v4 p.dst) = true) :
    (awgStart c h).2.firewall.verdict .forward p = some .accept := by
  refine verdict_of_insert hinsert hok hsubnet hallowed ?_
  rw [decideRules_awgFwdRules subnet allowed hin, if_pos ⟨hsrc, hout, cidr, hcidr, hdst⟩]

end Insert

/-- Whatever the firewall was, AWG that puts its jump into it decides about all packets of its
    clients: those with an address of its network are accepted to the networks that are
    allowed, but not to other clients, and all others are dropped. -/
theorem clients_confined {h : Host} {c : AwgConfig} {subnet : Prefix} {allowed : List Prefix}
    (hinsert : .awgFwd ∉ h.firewall.jumps .forward) (hok : (awgStart c h).1 = .ok ())
    (hsubnet : c.network = some subnet) (hallowed : c.allowed = some allowed) {p : Packet}
    (hin : p.input = awg0) : (awgStart c h).2.firewall.verdict .forward p =
      some (if subnet.contains (.v4 p.src) = true ∧ p.output ≠ awg0 ∧
        ∃ cidr ∈ allowed, cidr.contains (.v4 p.dst) = true then .accept else .drop) :=
  verdict_of_insert hinsert hok hsubnet hallowed (decideRules_awgFwdRules subnet allowed hin)

/-! ### The services as they are installed

Transit is started before AWG. -/

/-- AWG with one network, whose clients may reach everything. -/
def sampleAwg : AwgConfig where
  interface := awg0
  network := parsePrefix (str "10.8.0.0/24")
  port := some 51820
  allowed := some ((parsePrefix (str "0.0.0.0/0")).toList)

/-- Transit for that network. -/
def sampleTransit : TransitConfig where
  sourceIP := some 0x0A090002
  ingress := some (parsePrefix (str "10.8.0.0/24"))
  endpoint := some 0xC0000201

/-- A packet of a client to the outside, on another interface than that of transit. -/
def samplePacket : Packet where
  input := awg0
  output := str "eth0"
  src := 0x0A080002
  dst := 0x08080808
  udpPort := none
  established := false

/-- The server after the runs given. -/
def sampleHost (runs : List Run) : Host := runs.foldl (fun h r => (r.exec h).2) Host.initial

/-- Clients do not reach each other. -/
theorem clients_confined_sample :
    (awgStart sampleAwg (sampleHost [.transitStart ⟨false, false⟩ sampleTransit])).2.firewall.verdict
      .forward { samplePacket with output := awg0 } = some .drop :=
  (clients_confined (by decide) rfl rfl rfl rfl).trans (congrArg some (if_neg (by decide)))

end QuicLab.Scripts
