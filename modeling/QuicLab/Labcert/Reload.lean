import QuicLab.Command
import QuicLab.Go.X509
import QuicLab.System

/-!
# Certificates that are reloaded

The server keeps the certificate and the key it serves, and replaces them on request by
those in its files (`Reloadable.Reload`): if they belong together, the certificate is valid
at the time, and is for all the names that the one before lists.

* `reload_spec`: what a reload that succeeds has checked; one that fails changes nothing.
* `accepts_of_leads`: no host is lost, over any number of reloads. Each one asks for the
  names listed just before only, and that is enough (`X509.verifyHostname_of_listed`).
-/

namespace QuicLab.Labcert

open Go X509

/-- A `tls.Certificate`. -/
structure TLSCertificate (IP Public Private : Type) where
  certificate : List Bytes
  privateKey : Private
  leaf : Option (Certificate IP Public)

/-- The functions of Go's libraries that are called. -/
structure Primitives (IP Public Private : Type) where
  net : IPParser IP
  dir : Bytes → Bytes
  base : Bytes → Bytes
  join : Bytes → Bytes → Bytes
  parseCertificate : Bytes → Except Bytes (Certificate IP Public)
  x509KeyPair : Bytes → Bytes → Except Bytes (TLSCertificate IP Public Private)
  publicKey : Private → Public

variable {IP Public Private : Type}

/-- The private key belongs to the first certificate of the chain. -/
def Primitives.KeyMatches (lib : Primitives IP Public Private)
    (c : TLSCertificate IP Public Private) : Prop :=
  ∃ der rest leaf, c.certificate = der :: rest ∧ lib.parseCertificate der = .ok leaf ∧
    leaf.publicKey = lib.publicKey c.privateKey

/-- The libraries: `tls.X509KeyPair` gives keys that belong to their certificates only. -/
structure Libraries (IP Public Private : Type) extends Primitives IP Public Private where
  keyMatches_of_x509KeyPair : ∀ cp kp c, x509KeyPair cp kp = .ok c → toPrimitives.KeyMatches c

/-- What the system gives to one reload: the links and the files as they are when they are
    read, and the time, which is read twice. -/
structure Attempt where
  certPath : Bytes
  keyPath : Bytes
  evalSymlinks : Bytes → Except Bytes Bytes
  readCert : Bytes → Except Bytes Bytes
  readKey : Bytes → Except Bytes Bytes
  notBeforeNow : ℤ
  notAfterNow : ℤ

/-- The pair that is served. -/
abbrev Reloadable (IP Public Private : Type) := Option (TLSCertificate IP Public Private)

/-- `NewReloadable`. -/
def newReloadable (c : TLSCertificate IP Public Private) : Reloadable IP Public Private := some c

section Reload

variable (lib : Libraries IP Public Private)

/-- The files that are read. A directory that both are in is resolved once. -/
def Attempt.paths (a : Attempt) : Except Bytes (Bytes × Bytes) :=
  if lib.dir a.certPath = lib.dir a.keyPath then do
    let dir ← a.evalSymlinks (lib.dir a.certPath)
    return (lib.join dir (lib.base a.certPath), lib.join dir (lib.base a.keyPath))
  else return (a.certPath, a.keyPath)

/-- The first certificate of a chain. `X509KeyPair` gives no empty one. -/
def Libraries.parseLeaf (c : TLSCertificate IP Public Private) :
    Except Bytes (Certificate IP Public) :=
  match c.certificate with
  | [] => .error (str "index out of range")
  | der :: _ => lib.parseCertificate der

/-- Is the certificate valid now? -/
def Attempt.checkTime (a : Attempt) (leaf : Certificate IP Public) : Except Bytes Unit :=
  if a.notBeforeNow < leaf.notBefore ∨ leaf.notAfter < a.notAfterNow then
    .error (str "replacement certificate is not currently valid")
  else .ok ()

variable [DecidableEq IP]

/-- Is it for every one of the names? -/
def Libraries.checkNames (leaf : Certificate IP Public) : List Bytes → Except Bytes Unit
  | [] => .ok ()
  | name :: names =>
    if leaf.verifyHostname lib.net name then checkNames leaf names
    else .error (str "replacement certificate loses hostname " ++ name)

/-- Is it for the names of the certificate before? -/
def Libraries.checkPrior (old : Reloadable IP Public Private) (leaf : Certificate IP Public) :
    Except Bytes Unit :=
  match old with
  | none => .ok ()
  | some c =>
    match c.certificate with
    | [] => .ok ()
    | der :: _ => do
      let prior ← lib.parseCertificate der
      lib.checkNames leaf prior.dnsNames

/-- `Reloadable.Reload`. -/
def reload (a : Attempt) : Command (Reloadable IP Public Private) Bytes Unit := do
  let paths ← Command.lift (a.paths lib)
  let cp ← Command.lift (a.readCert paths.1)
  let kp ← Command.lift (a.readKey paths.2)
  let c ← Command.lift (lib.x509KeyPair cp kp)
  let leaf ← Command.lift (lib.parseLeaf c)
  Command.lift (a.checkTime leaf)
  let old ← Command.get
  Command.lift (lib.checkPrior old leaf)
  Command.modify fun _ => some { c with leaf := some leaf }

/-- The reloads of a server that starts with the certificate `c₀`. -/
def reloads (c₀ : TLSCertificate IP Public Private) :
    System (Reloadable IP Public Private) Attempt where
  init s := s = newReloadable c₀
  step s a s' := s' = (reload lib a s).2

/-- The certificate served is for the host. -/
def Libraries.Accepts (s : Reloadable IP Public Private) (h : Bytes) : Prop :=
  ∃ c der rest leaf, s = some c ∧ c.certificate = der :: rest ∧
    lib.parseCertificate der = .ok leaf ∧ leaf.verifyHostname lib.net h = true

end Reload

section Hosts

variable [DecidableEq IP] {lib : Libraries IP Public Private} {a : Attempt}
  {s s' : Reloadable IP Public Private}

theorem verifyHostname_of_checkNames {leaf : Certificate IP Public} {names : List Bytes}
    (h : lib.checkNames leaf names = .ok ()) :
    ∀ n ∈ names, leaf.verifyHostname lib.net n = true := by
  induction names with
  | nil => exact List.forall_mem_nil _
  | cons name names ih =>
    rw [Libraries.checkNames] at h
    split_ifs at h with hname
    exact List.forall_mem_cons.2 ⟨hname, ih h⟩

/-- The replacement is for the hosts that the certificate before is for. -/
theorem accepts_of_checkPrior {leaf : Certificate IP Public}
    (hcheck : lib.checkPrior s leaf = .ok ()) {h : Bytes} (hh : lib.net.DNSHost h)
    (hs : lib.Accepts s h) : leaf.verifyHostname lib.net h = true := by
  obtain ⟨c, der, rest, prior, rfl, hchain, hparse, hprior⟩ := hs
  have hnames : lib.checkNames leaf prior.dnsNames = .ok () := by
    rw [Libraries.checkPrior, hchain] at hcheck
    change (lib.parseCertificate der >>= fun prior => lib.checkNames leaf prior.dnsNames) = _ at hcheck
    rwa [hparse] at hcheck
  exact verifyHostname_of_listed (verifyHostname_of_checkNames hnames) hh hprior

/-- What a reload has checked that succeeds; one that fails leaves what there was. -/
theorem reload_spec (s : Reloadable IP Public Private) :
    Command.Triple (· = s) (reload lib a)
      (fun _ s' => ∃ cp kp c leaf, lib.x509KeyPair cp kp = .ok c ∧ lib.parseLeaf c = .ok leaf ∧
        lib.checkPrior s leaf = .ok () ∧ s' = some { c with leaf := some leaf })
      fun _ s' => s' = s := by
  have hE : ∀ (e : Bytes) s', s' = s → s' = s := fun _ _ h => h
  refine .lift_bind (fun paths _ => .lift_bind (fun cp _ => .lift_bind (fun kp _ =>
    .lift_bind (fun c hc => .lift_bind (fun leaf hleaf => .lift_bind (fun _ _ => ?_)
      hE) hE) hE) hE) hE) hE
  refine (Command.Triple.get (Q := fun old s' => old = s ∧ s' = s) fun s' h => ⟨h, h⟩).bind
    fun old => .lift_bind (fun _ hnames => .modify ?_) fun _ _ h => h.2
  rintro s' ⟨rfl, rfl⟩
  exact ⟨cp, kp, c, leaf, hc, hleaf, hnames, rfl⟩

omit [DecidableEq IP] in
theorem parseLeaf_eq_ok {c : TLSCertificate IP Public Private} {leaf : Certificate IP Public}
    (h : lib.parseLeaf c = .ok leaf) :
    ∃ der rest, c.certificate = der :: rest ∧ lib.parseCertificate der = .ok leaf := by
  rw [Libraries.parseLeaf] at h
  split at h
  · cases h
  · exact ⟨_, _, ‹_›, h⟩

/-- A reload loses no host. -/
theorem accepts_reload {h : Bytes} (hh : lib.net.DNSHost h) (hs : lib.Accepts s h) :
    lib.Accepts (reload lib a s).2 h := by
  refine ((reload_spec s).conseq (fun _ hs' => hs') ?_ ?_).snd (R := (lib.Accepts · h)) rfl
  · rintro _ s' ⟨cp, kp, c, leaf, hc, hleaf, hcheck, rfl⟩
    obtain ⟨der, rest, hchain, hparse⟩ := parseLeaf_eq_ok hleaf
    exact ⟨_, der, rest, leaf, rfl, hchain, hparse, accepts_of_checkPrior hcheck hh hs⟩
  · rintro _ s' rfl
    exact hs

/-- What is served is a certificate and a key that belongs to it. -/
def Libraries.Sound (lib : Libraries IP Public Private) (s : Reloadable IP Public Private) : Prop :=
  ∃ c, s = some c ∧ lib.KeyMatches c

theorem sound_reload (hs : lib.Sound s) : lib.Sound (reload lib a s).2 := by
  refine ((reload_spec s).conseq (fun _ hs' => hs') ?_ ?_).snd (R := lib.Sound) rfl
  · rintro _ s' ⟨cp, kp, c, leaf, hc, _, _, rfl⟩
    obtain ⟨der, rest, leaf', hchain, hparse, hkey⟩ := lib.keyMatches_of_x509KeyPair cp kp c hc
    exact ⟨_, rfl, der, rest, leaf', hchain, hparse, hkey⟩
  · rintro _ s' rfl
    exact hs

/-- Reloads lose no host. -/
theorem accepts_of_leads {c₀ : TLSCertificate IP Public Private}
    (hleads : (reloads lib c₀).Leads s s') {h : Bytes} (hh : lib.net.DNSHost h)
    (hs : lib.Accepts s h) : lib.Accepts s' h := by
  refine hleads.invariant (P := fun s => lib.Accepts s h) (fun s a s' hs hstep => ?_) hs
  exact hstep ▸ accepts_reload hh hs

theorem sound_of_reachable {c₀ : TLSCertificate IP Public Private} (h₀ : lib.KeyMatches c₀)
    (hs : (reloads lib c₀).Reachable s) : lib.Sound s := by
  refine hs.invariant (fun s hs => ⟨c₀, hs, h₀⟩) fun s a s' hs hstep => ?_
  exact hstep ▸ sound_reload hs

end Hosts

namespace Sample

/-- Addresses of which there is one. -/
def net : IPParser Unit where
  parseIP s := if toLower s = str "::1" then some () else none
  parseIP_toLower s := by rw [toLower_toLower]
  parseIP_star s hs := by
    refine if_neg fun h => ?_
    have hmem : 42 ∈ toLower s := List.mem_map.2 ⟨42, hs, rfl⟩
    rw [h] at hmem
    exact absurd hmem (by decide)

/-- Two certificates with one key, the second with a wildcard for the name of the first. -/
def parseCertificate (der : Bytes) : Except Bytes (Certificate Unit Bytes) :=
  if der = str "old" then .ok ⟨0, 10, [str "vpn.example.com"], [], str "key"⟩
  else if der = str "new" then .ok ⟨0, 10, [str "*.Example.com"], [], str "key"⟩
  else .error (str "x509: malformed certificate")

/-- Keys are their own public keys. -/
def x509KeyPair (cp kp : Bytes) : Except Bytes (TLSCertificate Unit Bytes Bytes) :=
  match parseCertificate cp with
  | .error e => .error e
  | .ok leaf =>
    if leaf.publicKey = kp then .ok ⟨[cp], kp, some leaf⟩
    else .error (str "tls: private key does not match public key")

def primitives : Primitives Unit Bytes Bytes where
  net := net
  dir p := p
  base p := p
  join d _ := d
  parseCertificate := parseCertificate
  x509KeyPair := x509KeyPair
  publicKey k := k

def lib : Libraries Unit Bytes Bytes where
  toPrimitives := primitives
  keyMatches_of_x509KeyPair cp kp c h := by
    change x509KeyPair cp kp = .ok c at h
    rw [x509KeyPair] at h
    split at h
    · cases h
    · rename_i leaf hparse
      split_ifs at h with hkey
      cases h
      exact ⟨cp, [], leaf, rfl, hparse, hkey⟩

def old : TLSCertificate Unit Bytes Bytes := ⟨[str "old"], str "key", none⟩

/-- A reload of the second certificate. -/
def attempt : Attempt where
  certPath := str "cert.pem"
  keyPath := str "key.pem"
  evalSymlinks := .ok
  readCert _ := .ok (str "new")
  readKey _ := .ok (str "key")
  notBeforeNow := 5
  notAfterNow := 5

end Sample

end QuicLab.Labcert
