import QuicLab.Gateway.Wire
import QuicLab.Go.Net
import QuicLab.Go.Strings

/-!
# Requests to the gateway

A client opens a stream and sends a request in its first frame; the gateway answers
it, and for most requests dials a destination on behalf of the client. What a handler
does is the list of its events.

The main result is that every dial passes the list of allowed destinations
(`dial_permitted`), whatever the request, the transport, and what the network and the
resolver answer.
-/

namespace QuicLab.Gateway

open Go Netip

variable {σ : Type*}

/-! ## Destinations -/

/-- The gateway: the networks clients may reach, and whether there is a transit to
    probe. -/
structure Server where
  allowed : List Prefix
  probe : Bool

namespace Server

/-- A network of the list of `New`. -/
def parseAllowed (v : Bytes) : Except Error Prefix :=
  match parsePrefix (trimSpace v) with
  | none => .error (.errorf "invalid IPv4 allow prefix %q" [v])
  | some p =>
    if ¬ p.addr.is4 then .error (.errorf "invalid IPv4 allow prefix %q" [v]) else .ok p.masked

/-- The loop of `New`, after the networks in `allowed`. -/
def parseAllowedList : List Bytes → (allowed : List Prefix) → Except Error (List Prefix)
  | [], allowed => .ok allowed
  | v :: vs, allowed =>
    match parseAllowed v with
    | .error e => .error e
    | .ok p => parseAllowedList vs (allowed ++ [p])

/-- `New`, for a gateway without transit. -/
def new (allow : Bytes) : Except Error Server :=
  match parseAllowedList (split allow (ascii ',')) [] with
  | .error e => .error e
  | .ok allowed => .ok ⟨allowed, false⟩

/-- `Permitted`. -/
def permitted (s : Server) (address : Bytes) : Bool :=
  match splitHostPort address with
  | none => false
  | some (host, p) =>
    match atoi p with
    | none => false
    | some port =>
      if port < 1 ∨ 65535 < port then false
      else
        match parseAddr host with
        | none => false
        | some ip =>
          if ¬ ip.is4 ∨ ip.isUnspecified ∨ ip.isMulticast ∨ ip = .v4 (BitVec.allOnes 32) then false
          else s.allowed.any (·.contains ip)

end Server

/-- An address with a literal IPv4 host other than the unspecified, the multicast and
    the broadcast addresses, in one of the networks, and a port. -/
def Destination (allowed : List Prefix) (address : Bytes) : Prop :=
  ∃ host p port a, splitHostPort address = some (host, p) ∧ atoi p = some port ∧
    1 ≤ port ∧ port ≤ 65535 ∧ host = (Addr.v4 a).string ∧ a ≠ 0 ∧ a.toNat / 2 ^ 28 ≠ 14 ∧
      a ≠ BitVec.allOnes 32 ∧ ∃ p ∈ allowed, p.contains (.v4 a) = true

theorem permitted_iff (s : Server) (address : Bytes) :
    s.permitted address = true ↔ Destination s.allowed address := by
  constructor
  · intro h
    unfold Server.permitted at h
    split at h
    · cases h
    · rename_i host p hsplit
      split at h
      · cases h
      · rename_i port hport
        split_ifs at h with hrange
        split at h
        · cases h
        · rename_i ip hip
          split_ifs at h with hkind
          simp only [not_or, not_not] at hkind hrange
          cases ip with
          | v6 a zone => cases hkind.1
          | v4 a =>
            obtain ⟨_, hunspec, hmulti, hbroad⟩ := hkind
            obtain ⟨q, hq, hcontains⟩ := List.any_eq_true.1 h
            refine ⟨host, p, port, a, hsplit, hport, not_lt.1 hrange.1, not_lt.1 hrange.2,
              parseAddr_eq_v4_iff.1 hip, fun ha => ?_, fun ha => ?_, fun ha => ?_, q, hq, hcontains⟩
            · exact hunspec (by rw [ha]; decide)
            · exact hmulti (decide_eq_true ha)
            · exact hbroad (by rw [ha])
  · rintro ⟨host, p, port, a, hsplit, hport, hlo, hhi, hhost, hunspec, hmulti, hbroad, q, hq,
      hcontains⟩
    have hkind : ¬ (¬ (Addr.v4 a).is4 = true ∨ (Addr.v4 a).isUnspecified = true ∨
        (Addr.v4 a).isMulticast = true ∨ Addr.v4 a = .v4 (BitVec.allOnes 32)) := by
      simp only [Addr.is4, Addr.isUnspecified, Addr.isMulticast, not_true_eq_false, false_or,
        not_or, Bool.or_eq_true, decide_eq_true_eq, Addr.v4.injEq, reduceCtorEq, or_false]
      exact ⟨hunspec, hmulti, hbroad⟩
    simp only [Server.permitted, hsplit, hport, parseAddr_eq_v4_iff.2 hhost,
      if_neg (not_or.2 ⟨not_lt.2 hlo, not_lt.2 hhi⟩), if_neg hkind]
    exact List.any_eq_true.2 ⟨q, hq, hcontains⟩

/-! ## Handlers -/

/-- The first frame of a stream. -/
structure Request where
  network : Bytes
  address : Bytes

/-- The answer to it. -/
structure Reply where
  udpStream : Bool
  error : String
  session : Bytes

/-- An answer that is an error. -/
def Reply.failed (error : String) : Reply := ⟨false, error, []⟩

/-- An answer that accepts the request. -/
def Reply.accepted (id : Bytes) : Reply := ⟨false, "", id⟩

/-- The types of streams the handlers tell apart: a `QStream`, with its id, an
    `*MStream`, and any other. -/
inductive Stream
  | quic (id : UInt64)
  | https
  | other

/-- Is the stream an `*MStream`? -/
def Stream.isHTTPS : Stream → Bool
  | .https => true
  | _ => false

/-- What a handler finds: the answers of the probe of transit, of the resolver, of the
    dialer, and of the mux, and whether its own answer can be written. -/
structure HandlerEnv where
  probe : Option Error
  lookupIP : Except Error (List Bytes)
  dial : (network address : Bytes) → Bool
  register : Option String
  write : Bool

/-- What a handler does. After its answer it echoes the frames of the client, relays a
    connection, or answers queries or packets one by one. -/
inductive Event
  | reply (r : Reply)
  | dial (network address : Bytes)
  | echo
  | relay
  | queries
  | packets

/-- `ReadJSON`, for a codec. -/
def readJSON {α : Type*} (unmarshal : Bytes → Option α) (r : Reader σ) (st : σ) : Option α :=
  match (readPacket r 4096 st).1 with
  | (b, none) => unmarshal b
  | (_, some _) => none

namespace Server

variable (s : Server) (env : HandlerEnv)

/-- `serveUDPStream`. -/
def serveUDPStream (st : Stream) (req : Request) (id : Bytes) : List Event :=
  match st with
  | .https =>
    if ¬ s.permitted req.address then [.reply (.failed "destination denied")]
    else .dial (str "udp4") req.address ::
      if ¬ env.dial (str "udp4") req.address then [.reply (.failed "destination unavailable")]
      else .reply (.accepted id) :: if env.write then [.packets] else []
  | _ => [.reply (.failed "UDP stream requires HTTPS transport")]

/-- `serveUDP`, with a mux or without. -/
def serveUDP (st : Stream) (req : Request) (id : Bytes) (mux : Bool) : List Event :=
  match st, mux with
  | .quic _, true =>
    if ¬ s.permitted req.address then [.reply (.failed "destination denied")]
    else .dial (str "udp4") req.address ::
      if ¬ env.dial (str "udp4") req.address then [.reply (.failed "destination unavailable")]
      else
        match env.register with
        | some e => [.reply (.failed e)]
        | none => .reply (.accepted id) :: if env.write then [.packets] else []
  | _, _ => [.reply (.failed "QUIC DATAGRAM unavailable")]

/-- The end of `handleDatagrams`, for a TCP connection or DNS queries. -/
def connect (req : Request) (id : Bytes) : List Event :=
  let network := if req.network = str "dns" then str "udp4" else str "tcp4"
  if req.network ≠ str "tcp" ∧ req.network ≠ str "dns" then
    [.reply (.failed "unsupported network")]
  else if ¬ s.permitted req.address then [.reply (.failed "destination denied")]
  else if req.network = str "dns" ∧ ((splitHostPort req.address).getD ([], [])).2 ≠ str "53" then
    [.reply (.failed "DNS port must be 53")]
  else .dial network req.address ::
    if ¬ env.dial network req.address then [.reply (.failed "destination unavailable")]
    else .reply (.accepted id) ::
      if ¬ env.write then [] else if req.network = str "tcp" then [.relay] else [.queries]

/-- `handleDatagrams` after its first frame. -/
def handleRequest (st : Stream) (mux : Bool) (req : Request) (id : Bytes) : List Event :=
  if req.network = str "udp-stream-v1" then s.serveUDPStream env st req id
  else if req.network = str "udp-datagram-v1" then s.serveUDP env st req id mux
  else if req.network = str "transit-probe" then
    if ¬ s.probe then [.reply (.failed "transit disabled")]
    else if env.probe.isSome then [.reply (.failed "transit gateway unavailable")]
    else [.reply (.accepted id)]
  else if req.network = str "echo" then
    .reply ⟨st.isHTTPS, "", id⟩ :: if env.write then [.echo] else []
  else if req.network = str "exit-ip" then
    match env.lookupIP with
    | .ok (address :: _) =>
      -- The one fixed target, resolved here.
      s.connect env ⟨str "tcp", joinHostPort (ipString address) (str "443")⟩ id
    | _ => [.reply (.failed "exit IP lookup unavailable")]
  else s.connect env req id

/-- `handleDatagrams`. -/
def handleDatagrams (unmarshal : Bytes → Option Request) (r : Reader σ) (input : σ) (st : Stream)
    (mux : Bool) (id : Bytes) : List Event :=
  match readJSON unmarshal r input with
  | none => []
  | some req => s.handleRequest env st mux req id

end Server

/-! ## Dials -/

section Dials

variable {s : Server} {env : HandlerEnv} {st : Stream} {mux : Bool} {req : Request} {id : Bytes}
  {network address : Bytes}

/-- A handler that dials does nothing else that is a dial. -/
theorem dial_mem_cons {n a : Bytes} {rest : List Event}
    (hrest : ∀ n a, .dial n a ∉ rest) (h : .dial network address ∈ .dial n a :: rest) :
    network = n ∧ address = a := by
  obtain heq | hmem := List.mem_cons.1 h
  · cases heq
    exact ⟨rfl, rfl⟩
  · exact absurd hmem (hrest network address)

theorem serveUDPStream_dial (h : .dial network address ∈ s.serveUDPStream env st req id) :
    network = str "udp4" ∧ address = req.address ∧ s.permitted address = true := by
  unfold Server.serveUDPStream at h
  split at h
  · by_cases hperm : s.permitted req.address = true
    · rw [if_neg (not_not.2 hperm)] at h
      obtain ⟨rfl, rfl⟩ := dial_mem_cons (fun n a => by split_ifs <;> simp) h
      exact ⟨rfl, rfl, hperm⟩
    · rw [if_pos hperm] at h
      simp at h
  · simp at h

theorem serveUDP_dial (h : .dial network address ∈ s.serveUDP env st req id mux) :
    network = str "udp4" ∧ address = req.address ∧ s.permitted address = true := by
  unfold Server.serveUDP at h
  split at h
  · by_cases hperm : s.permitted req.address = true
    · rw [if_neg (not_not.2 hperm)] at h
      obtain ⟨rfl, rfl⟩ := dial_mem_cons (fun n a => by split_ifs <;> (try split) <;> simp) h
      exact ⟨rfl, rfl, hperm⟩
    · rw [if_pos hperm] at h
      simp at h
  · simp at h

theorem connect_dial (h : .dial network address ∈ s.connect env req id) :
    address = req.address ∧ s.permitted address = true ∧
      (req.network = str "tcp" ∧ network = str "tcp4" ∨
        req.network = str "dns" ∧ network = str "udp4" ∧
          ∃ host, splitHostPort address = some (host, str "53")) := by
  unfold Server.connect at h
  by_cases hnet : req.network ≠ str "tcp" ∧ req.network ≠ str "dns"
  · simp [hnet] at h
  by_cases hperm : s.permitted req.address = true
  · by_cases hport : req.network = str "dns" ∧
        ((splitHostPort req.address).getD ([], [])).2 ≠ str "53"
    · simp [hperm, hport] at h
    · simp only [if_neg hnet, if_neg (not_not.2 hperm), if_neg hport] at h
      obtain ⟨rfl, rfl⟩ := dial_mem_cons (fun n a => by split_ifs <;> simp) h
      refine ⟨rfl, hperm, ?_⟩
      by_cases hdns : req.network = str "dns"
      · obtain ⟨host, p, _, _, hsplit, _⟩ := (permitted_iff s req.address).1 hperm
        rw [hsplit] at hport
        have hp : p = str "53" := not_not.1 fun hne => hport ⟨hdns, hne⟩
        exact .inr ⟨hdns, if_pos hdns, host, hp ▸ hsplit⟩
      · have htcp : req.network = str "tcp" := not_not.1 fun hne => hnet ⟨hne, hdns⟩
        exact .inl ⟨htcp, if_neg hdns⟩
  · simp [hnet, hperm] at h

theorem handleRequest_dial (h : .dial network address ∈ s.handleRequest env st mux req id) :
    s.permitted address = true ∧ (req.network = str "exit-ip" ∨ address = req.address) ∧
      ((req.network = str "tcp" ∨ req.network = str "exit-ip") ∧ network = str "tcp4" ∨
        (req.network = str "dns" ∨ req.network = str "udp-stream-v1" ∨
          req.network = str "udp-datagram-v1") ∧ network = str "udp4") ∧
      (req.network = str "dns" → ∃ host, splitHostPort address = some (host, str "53")) := by
  rw [Server.handleRequest] at h
  split_ifs at h with hstream hdatagram hprobe henabled hfailed hecho hwrite hexit
  · obtain ⟨rfl, rfl, hperm⟩ := serveUDPStream_dial h
    refine ⟨hperm, .inr rfl, .inr ⟨.inr (.inl hstream), rfl⟩, fun hdns => ?_⟩
    exact absurd (hstream.symm.trans hdns) (by decide)
  · obtain ⟨rfl, rfl, hperm⟩ := serveUDP_dial h
    refine ⟨hperm, .inr rfl, .inr ⟨.inr (.inr hdatagram), rfl⟩, fun hdns => ?_⟩
    exact absurd (hdatagram.symm.trans hdns) (by decide)
  · simp at h
  · simp at h
  · simp at h
  · simp at h
  · simp at h
  · split at h
    · obtain ⟨_, hperm, ⟨_, hnet⟩ | ⟨hdns, _⟩⟩ := connect_dial h
      · refine ⟨hperm, .inl hexit, .inl ⟨.inr hexit, hnet⟩, fun hdns => ?_⟩
        exact absurd (hexit.symm.trans hdns) (by decide)
      · exact absurd (show str "tcp" = str "dns" from hdns) (by decide)
    · simp at h
  · obtain ⟨haddr, hperm, ⟨htcp, hnet⟩ | ⟨hdns, hnet, hport⟩⟩ := connect_dial h
    · refine ⟨hperm, .inr haddr, .inl ⟨.inl htcp, hnet⟩, fun hdns => ?_⟩
      exact absurd (htcp.symm.trans hdns) (by decide)
    · exact ⟨hperm, .inr haddr, .inr ⟨.inl hdns, hnet⟩, fun _ => hport⟩

end Dials

/-- Every dial passes the list of allowed destinations. If a handler dials, whatever the
    first frame of the stream, the transport and the answers of the resolver, then the
    address is a permitted destination, it is the one requested unless the request is for
    the exit address, and the network is that of the request, which is for TCP, DNS, UDP or
    the exit address; DNS is dialed on port 53 only. -/
theorem dial_permitted (s : Server) (env : HandlerEnv) (unmarshal : Bytes → Option Request)
    (r : Reader σ) (input : σ) (st : Stream) (mux : Bool) (id : Bytes) :
    (∀ network address, .dial network address ∈ s.handleDatagrams env unmarshal r input st mux id →
      ∃ req, readJSON unmarshal r input = some req ∧
        s.permitted address = true ∧ Destination s.allowed address ∧
        (req.network = str "exit-ip" ∨ address = req.address) ∧
        ((req.network = str "tcp" ∨ req.network = str "exit-ip") ∧ network = str "tcp4" ∨
          (req.network = str "dns" ∨ req.network = str "udp-stream-v1" ∨
            req.network = str "udp-datagram-v1") ∧ network = str "udp4") ∧
        (req.network = str "dns" → ∃ host, splitHostPort address = some (host, str "53"))) ∧
      ∀ req network address, (.dial network address ∈ s.serveUDP env st req id mux ∨
          .dial network address ∈ s.serveUDPStream env st req id) →
        network = str "udp4" ∧ address = req.address ∧ Destination s.allowed address := by
  refine ⟨fun network address h => ?_, fun req network address h => ?_⟩
  · rw [Server.handleDatagrams] at h
    split at h
    · simp at h
    · rename_i req hreq
      obtain ⟨hperm, hrest⟩ := handleRequest_dial h
      exact ⟨req, hreq, hperm, (permitted_iff s address).1 hperm, hrest⟩
  · obtain h | h := h
    · obtain ⟨hnet, haddr, hperm⟩ := serveUDP_dial h
      exact ⟨hnet, haddr, (permitted_iff s address).1 hperm⟩
    · obtain ⟨hnet, haddr, hperm⟩ := serveUDPStream_dial h
      exact ⟨hnet, haddr, (permitted_iff s address).1 hperm⟩

/-- An environment in which everything succeeds. -/
def sampleHandlerEnv : HandlerEnv := ⟨none, .ok [[10, 0, 0, 8]], fun _ _ => true, none, true⟩

/-- A gateway for the networks `10.0.0.0/8`. -/
def sampleGateway : Server := ⟨[⟨.v4 0x0A000000, 8, by decide⟩], false⟩

/-- A request for the exit address dials the address the resolver gives, if it is
    permitted. -/
theorem dial_permitted_exit : Server.new (str "10.0.0.0/8") = .ok sampleGateway ∧
    .dial (str "tcp4") (str "10.0.0.8:443") ∈ sampleGateway.handleDatagrams sampleHandlerEnv
      (fun _ => some ⟨str "exit-ip", []⟩) Pipe.reader ⟨[[0, 0]], []⟩ .https false [] ∧
    Destination sampleGateway.allowed (str "10.0.0.8:443") := by
  have hevents : sampleGateway.handleDatagrams sampleHandlerEnv (fun _ => some ⟨str "exit-ip", []⟩)
      Pipe.reader ⟨[[0, 0]], []⟩ .https false [] =
      [.dial (str "tcp4") (str "10.0.0.8:443"), .reply (.accepted []), .relay] := rfl
  have hdial : .dial (str "tcp4") (str "10.0.0.8:443") ∈ sampleGateway.handleDatagrams
      sampleHandlerEnv (fun _ => some ⟨str "exit-ip", []⟩) Pipe.reader ⟨[[0, 0]], []⟩ .https false
      [] := hevents ▸ List.mem_cons_self
  obtain ⟨_, _, _, hdest, _⟩ := (dial_permitted _ _ _ _ _ _ _ _).1 _ _ hdial
  exact ⟨rfl, hdial, hdest⟩

end QuicLab.Gateway
