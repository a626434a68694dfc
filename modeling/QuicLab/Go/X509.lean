import QuicLab.Go.Strings

/-!
# Names of certificates

`VerifyHostname` of Go's package `crypto/x509`: which hosts a certificate is for. The
name of a host is matched label by label against the DNS names of the certificate, where a
star may stand for the first label; what is not the name of a host is matched only by a DNS
name that equals it. Both disregard case. An address is looked for among the addresses
of the certificate.

* `verifyHostname_of_listed`: a certificate that is for all the names another one lists is
  for every host the other one is for. The listed names may be wildcards, so that it is not
  asked for the hosts themselves.
-/

namespace QuicLab.Go.X509

/-! ## Names of hosts -/

/-- `strings.TrimSuffix(host, ".")`. -/
def trimDot (host : Bytes) : Bytes := if host.getLast? = some 46 then host.dropLast else host

/-- The bytes that may stand anywhere in a label. -/
def isWordByte (c : UInt8) : Bool :=
  (97 ≤ c.toNat && c.toNat ≤ 122) || (48 ≤ c.toNat && c.toNat ≤ 57) ||
    (65 ≤ c.toNat && c.toNat ≤ 90) || c == 95

/-- A label: not empty, and with hyphens only after its first byte. -/
def validLabel : Bytes → Bool
  | [] => false
  | c :: cs => isWordByte c && cs.all fun c => isWordByte c || c == 45

/-- The labels of a name, of which the first may be a star in a pattern. -/
def validParts (isPattern : Bool) : List Bytes → Bool
  | [] => true
  | part :: parts => (isPattern && part == [42] || validLabel part) && parts.all validLabel

/-- `validHostname`. -/
def validHostname (host : Bytes) (isPattern : Bool) : Bool :=
  let host := if isPattern then host else trimDot host
  if host.length = 0 then false
  else if host = [42] then false
  else validParts isPattern (split host 46)

/-- `matchExactly`. -/
def matchExactly (hostA hostB : Bytes) : Bool :=
  if hostA = [] ∨ hostA = [46] ∨ hostB = [] ∨ hostB = [46] then false
  else toLower hostA = toLower hostB

/-- Labels that are equal, but for a star in the first place of the pattern. -/
def matchParts : List Bytes → List Bytes → Bool
  | p :: ps, h :: hs => (p = [42] ∨ p = h) ∧ ps = hs
  | _, _ => false

/-- `matchHostnames`. -/
def matchHostnames (pattern host : Bytes) : Bool :=
  let pattern := toLower pattern
  let host := toLower (trimDot host)
  if pattern.length = 0 ∨ host.length = 0 then false
  else matchParts (split pattern 46) (split host 46)

/-- Does the DNS name match the host? -/
def matchName (name host : Bytes) : Bool :=
  let candidateName := toLower host
  if validHostname candidateName false && validHostname name true then
    matchHostnames name candidateName
  else matchExactly name candidateName

/-- An address in brackets is taken out of them. -/
def candidateIP (h : Bytes) : Bytes :=
  if 3 ≤ h.length ∧ h.head? = some 91 ∧ h.getLast? = some 93 then (h.drop 1).dropLast else h

/-- `net.ParseIP`, of which is used that it disregards case, and that there is no star in
    an address. -/
structure IPParser (IP : Type) where
  parseIP : Bytes → Option IP
  parseIP_toLower : ∀ s, parseIP (toLower s) = parseIP s
  parseIP_star : ∀ s, 42 ∈ s → parseIP s = none

/-- An `x509.Certificate`. -/
structure Certificate (IP Public : Type) where
  notBefore : ℤ
  notAfter : ℤ
  dnsNames : List Bytes
  ipAddresses : List IP
  publicKey : Public

variable {IP Public : Type} [DecidableEq IP]

/-- `Certificate.VerifyHostname`. -/
def Certificate.verifyHostname (net : IPParser IP) (c : Certificate IP Public) (h : Bytes) : Bool :=
  match net.parseIP (candidateIP h) with
  | some ip => c.ipAddresses.contains ip
  | none => c.dnsNames.any fun name => matchName name h

/-- The name of a host and not an address, nor one with a dot after it. -/
def IPParser.DNSHost (net : IPParser IP) (h : Bytes) : Prop :=
  net.parseIP (candidateIP h) = none ∧ net.parseIP (candidateIP (trimDot h)) = none

/-! ## Case -/

section Case

/-- The letters of ASCII. -/
def IsLetter (c : UInt8) : Prop := (65 ≤ c.toNat ∧ c.toNat ≤ 90) ∨ (97 ≤ c.toNat ∧ c.toNat ≤ 122)

instance (c : UInt8) : Decidable (IsLetter c) := inferInstanceAs (Decidable (_ ∨ _))

theorem lower_byte (c : UInt8) :
    (if 65 ≤ c.toNat ∧ c.toNat ≤ 90 then c + 32 else c).toNat =
      if 65 ≤ c.toNat ∧ c.toNat ≤ 90 then c.toNat + 32 else c.toNat := by
  split_ifs with h
  · have hadd : (c + 32).toNat = (c.toNat + 32) % 256 := UInt8.toNat_add c 32
    omega
  · rfl

/-- A byte that is no letter is there in both cases or in none. -/
theorem lower_byte_eq_iff {c d : UInt8} (hd : ¬ IsLetter d) :
    (if 65 ≤ c.toNat ∧ c.toNat ≤ 90 then c + 32 else c) = d ↔ c = d := by
  rw [← UInt8.toNat_inj, lower_byte, ← UInt8.toNat_inj]
  rw [IsLetter] at hd
  split_ifs <;> omega

theorem toLower_toLower (s : Bytes) : toLower (toLower s) = toLower s := by
  rw [toLower, toLower, List.map_map]
  refine List.map_congr_left fun c _ => ?_
  rw [Function.comp_apply, ← UInt8.toNat_inj, lower_byte, lower_byte]
  split_ifs <;> omega

theorem length_toLower (s : Bytes) : (toLower s).length = s.length := List.length_map _

/-- A text of one byte that is no letter. -/
theorem toLower_eq_singleton_iff {s : Bytes} {d : UInt8} (hd : ¬ IsLetter d) :
    toLower s = [d] ↔ s = [d] := by
  rw [toLower, List.map_eq_singleton_iff]
  constructor
  · rintro ⟨c, rfl, hc⟩
    rw [(lower_byte_eq_iff hd).1 hc]
  · rintro rfl
    exact ⟨d, rfl, (lower_byte_eq_iff hd).2 rfl⟩

theorem map_lower_byte_eq_some_iff {o : Option UInt8} {d : UInt8} (hd : ¬ IsLetter d) :
    (o.map fun c => if 65 ≤ c.toNat ∧ c.toNat ≤ 90 then c + 32 else c) = some d ↔ o = some d := by
  rw [Option.map_eq_some_iff]
  constructor
  · rintro ⟨c, rfl, hc⟩
    rw [(lower_byte_eq_iff hd).1 hc]
  · rintro rfl
    exact ⟨d, rfl, (lower_byte_eq_iff hd).2 rfl⟩

theorem getLast?_toLower {s : Bytes} {d : UInt8} (hd : ¬ IsLetter d) :
    (toLower s).getLast? = some d ↔ s.getLast? = some d := by
  rw [toLower, List.getLast?_map, map_lower_byte_eq_some_iff hd]

theorem trimDot_toLower (s : Bytes) : trimDot (toLower s) = toLower (trimDot s) := by
  rw [trimDot, trimDot]
  by_cases h : s.getLast? = some 46
  · rw [if_pos h, if_pos ((getLast?_toLower (by decide)).2 h), toLower, toLower, List.map_dropLast]
  · rw [if_neg h, if_neg (mt (getLast?_toLower (by decide)).1 h)]

theorem split_toLower (s : Bytes) : split (toLower s) 46 = (split s 46).map toLower := by
  induction s with
  | nil => rfl
  | cons c s ih =>
    rw [split, List.splitOn] at ih ⊢
    rw [split, List.splitOn] at ih ⊢
    rw [toLower, List.map_cons, List.splitOnP_cons_eq_if_modifyHead,
      List.splitOnP_cons_eq_if_modifyHead]
    by_cases hc : c = 46
    · rw [if_pos (beq_iff_eq.2 ((lower_byte_eq_iff (by decide)).2 hc)), if_pos (beq_iff_eq.2 hc)]
      exact congrArg ([] :: ·) ih
    · rw [if_neg (mt beq_iff_eq.1 (mt (lower_byte_eq_iff (by decide)).1 hc)),
        if_neg (mt beq_iff_eq.1 hc)]
      rw [toLower] at ih
      rw [ih]
      cases List.splitOnP (· == 46) s <;> rfl

theorem isWordByte_lower (c : UInt8) :
    isWordByte (if 65 ≤ c.toNat ∧ c.toNat ≤ 90 then c + 32 else c) = isWordByte c := by
  have h95 : ((if 65 ≤ c.toNat ∧ c.toNat ≤ 90 then c + 32 else c) == 95) = (c == 95) := by
    rw [Bool.eq_iff_iff, beq_iff_eq, beq_iff_eq, lower_byte_eq_iff (by decide)]
  rw [isWordByte, isWordByte, lower_byte, h95]
  congr 1
  rw [Bool.eq_iff_iff]
  simp only [Bool.or_eq_true, Bool.and_eq_true, decide_eq_true_eq]
  split_ifs <;> omega

theorem validLabel_toLower (s : Bytes) : validLabel (toLower s) = validLabel s := by
  cases s with
  | nil => rfl
  | cons c s =>
    rw [toLower, List.map_cons, validLabel, validLabel, isWordByte_lower, List.all_map]
    refine congrArg (isWordByte c && ·) (congrArg s.all (funext fun d => ?_))
    rw [Function.comp_apply, isWordByte_lower]
    congr 1
    rw [Bool.eq_iff_iff, beq_iff_eq, beq_iff_eq, lower_byte_eq_iff (by decide)]

theorem validHostname_toLower (s : Bytes) (isPattern : Bool) :
    validHostname (toLower s) isPattern = validHostname s isPattern := by
  have hhost : (if isPattern then toLower s else trimDot (toLower s)) =
      toLower (if isPattern then s else trimDot s) := by
    cases isPattern
    · exact trimDot_toLower s
    · rfl
  rw [validHostname, validHostname, hhost]
  generalize (if isPattern then s else trimDot s) = host
  have hparts : validParts isPattern (split (toLower host) 46) =
      validParts isPattern (split host 46) := by
    rw [split_toLower]
    cases split host 46 with
    | nil => rfl
    | cons part parts =>
      have hstar : (toLower part == [42]) = (part == [42]) := by
        rw [Bool.eq_iff_iff, beq_iff_eq, beq_iff_eq, toLower_eq_singleton_iff (by decide)]
      rw [List.map_cons, validParts, validParts, hstar, validLabel_toLower, List.all_map]
      exact congrArg (_ && ·) (congrArg parts.all (funext validLabel_toLower))
  simp only [length_toLower, toLower_eq_singleton_iff (show ¬ IsLetter 42 by decide),
    hparts]

theorem head?_toLower {s : Bytes} {d : UInt8} (hd : ¬ IsLetter d) :
    (toLower s).head? = some d ↔ s.head? = some d := by
  rw [toLower, List.head?_map, map_lower_byte_eq_some_iff hd]

theorem candidateIP_toLower (s : Bytes) : candidateIP (toLower s) = toLower (candidateIP s) := by
  simp only [candidateIP, length_toLower, head?_toLower (show ¬ IsLetter 91 by decide),
    getLast?_toLower (show ¬ IsLetter 93 by decide)]
  split_ifs
  · rw [toLower, toLower, List.map_dropLast, List.map_drop]
  · rfl

end Case

/-! ## Names that match names -/

section Matching

variable {m n h : Bytes}

theorem matchName_congr (hlower : toLower n = toLower h) : matchName m n = matchName m h := by
  rw [matchName, matchName, hlower]

theorem matchHostnames_pattern (hlower : toLower m = toLower n) :
    matchHostnames m h = matchHostnames n h := by
  rw [matchHostnames, matchHostnames, hlower]

theorem matchHostnames_host (hlower : toLower (trimDot n) = toLower (trimDot h)) :
    matchHostnames m n = matchHostnames m h := by
  rw [matchHostnames, matchHostnames, hlower]

theorem lower_eq_of_matchExactly (hm : matchExactly m n = true) : toLower m = toLower n := by
  rw [matchExactly] at hm
  split_ifs at hm
  exact of_decide_eq_true hm

theorem validParts_of_validHostname {isPattern : Bool} (hs : validHostname n isPattern = true) :
    validParts isPattern (split (if isPattern then n else trimDot n) 46) = true := by
  rw [validHostname] at hs
  revert hs
  generalize (if isPattern then n else trimDot n) = host
  intro hs
  split_ifs at hs
  exact hs

/-- The name of a pattern does not end with a dot. -/
theorem trimDot_of_pattern (hn : validHostname n true = true) : trimDot n = n := by
  rw [trimDot, if_neg]
  intro hlast
  obtain ⟨s, rfl⟩ := List.getLast?_eq_some_iff.1 hlast
  obtain ⟨l, hl⟩ := splitOn_head s 46
  have hparts := validParts_of_validHostname hn
  rw [if_pos rfl, split, splitOn_append_cons, hl] at hparts
  simp [validParts, validLabel] at hparts

/-- The name of a host does not begin with a star. -/
theorem head_ne_star (hn : validHostname n false = true) :
    (trimDot n).takeWhile (· ≠ 46) ≠ [42] := by
  intro hstar
  obtain ⟨parts, hsplit⟩ := splitOn_head (trimDot n) 46
  have hparts := validParts_of_validHostname hn
  rw [if_neg Bool.false_ne_true, split, hsplit, hstar, validParts] at hparts
  simp [validLabel, isWordByte] at hparts

/-- A pattern without a star matches itself only, in any case and with or without a dot
    after it. -/
theorem lower_eq_of_matchHostnames (hmatch : matchHostnames n h = true)
    (hstar : n.takeWhile (· ≠ 46) ≠ [42]) : toLower n = toLower (trimDot h) := by
  rw [matchHostnames] at hmatch
  split_ifs at hmatch
  obtain ⟨parts, hparts⟩ := splitOn_head n 46
  obtain ⟨labels, hlabels⟩ := splitOn_head (toLower (trimDot h)) 46
  have hsplit := split_toLower n
  rw [split, split, hparts, List.map_cons] at hsplit
  rw [split, split, hsplit, hlabels, matchParts, decide_eq_true_eq,
    toLower_eq_singleton_iff (by decide)] at hmatch
  have heq : (toLower n).splitOn 46 = (toLower (trimDot h)).splitOn 46 := by
    rw [hsplit, hlabels, hmatch.2, hmatch.1.resolve_left hstar]
  calc toLower n = [46].intercalate ((toLower n).splitOn 46) := (List.intercalate_splitOn 46).symm
    _ = toLower (trimDot h) := by rw [heq, List.intercalate_splitOn]

/-- What matches a name matches the hosts that the name matches. -/
theorem matchName_trans (hm : matchName m n = true) (hn : matchName n h = true) :
    matchName m h = true := by
  have hn' := hn
  rw [matchName] at hn'
  split_ifs at hn' with hvalid
  · obtain ⟨hinput, hpattern⟩ := Bool.and_eq_true_iff.1 hvalid
    rw [matchName] at hm
    split_ifs at hm with hvalid'
    · obtain ⟨hinput', hpattern'⟩ := Bool.and_eq_true_iff.1 hvalid'
      rw [validHostname_toLower] at hinput'
      have hstar := head_ne_star hinput'
      rw [trimDot_of_pattern hpattern] at hstar
      have hlower := lower_eq_of_matchHostnames hn' hstar
      rw [matchName, if_pos (Bool.and_eq_true_iff.2 ⟨hinput, hpattern'⟩), ← hm]
      refine (matchHostnames_host ?_).symm
      rw [trimDot_toLower, trimDot_of_pattern hpattern, toLower_toLower, hlower]
    · -- The name is listed, perhaps as the wildcard that it is.
      have hlower := lower_eq_of_matchExactly hm
      rw [toLower_toLower] at hlower
      have hpattern' : validHostname m true = true := by
        rw [← validHostname_toLower, hlower, validHostname_toLower, hpattern]
      rw [matchName, if_pos (Bool.and_eq_true_iff.2 ⟨hinput, hpattern'⟩),
        matchHostnames_pattern hlower, hn']
  · have hlower := lower_eq_of_matchExactly hn'
    rw [toLower_toLower] at hlower
    rw [← matchName_congr hlower, hm]

end Matching

/-! ## Certificates that are for the hosts of others -/

section Certificates

variable {net : IPParser IP} {prior leaf : Certificate IP Public} {h : Bytes}

omit [DecidableEq IP] in
theorem parseIP_congr {n : Bytes} (hlower : toLower n = toLower h) :
    net.parseIP (candidateIP n) = net.parseIP (candidateIP h) := by
  rw [← net.parseIP_toLower, ← candidateIP_toLower, hlower, candidateIP_toLower,
    net.parseIP_toLower]

omit [DecidableEq IP] in
theorem parseIP_of_star {n : Bytes} (hstar : n.takeWhile (· ≠ 46) = [42]) :
    net.parseIP (candidateIP n) = none := by
  obtain ⟨s, rfl⟩ : ∃ s, n = 42 :: s := by
    obtain ⟨t, ht⟩ := List.takeWhile_prefix (· ≠ (46 : UInt8)) (l := n)
    rw [hstar] at ht
    exact ⟨t, ht.symm⟩
  rw [candidateIP, if_neg fun h => by cases h.2.1]
  exact net.parseIP_star _ List.mem_cons_self

omit [DecidableEq IP] in
/-- A name that matches the name of a host is not an address. -/
theorem parseIP_of_matchName {n : Bytes} (hh : net.DNSHost h) (hn : matchName n h = true) :
    net.parseIP (candidateIP n) = none := by
  by_cases hstar : n.takeWhile (· ≠ 46) = [42]
  · exact parseIP_of_star hstar
  · rw [matchName] at hn
    split_ifs at hn
    · have hlower := lower_eq_of_matchHostnames hn hstar
      rw [trimDot_toLower, toLower_toLower] at hlower
      rw [parseIP_congr hlower, hh.2]
    · have hlower := lower_eq_of_matchExactly hn
      rw [toLower_toLower] at hlower
      rw [parseIP_congr hlower, hh.1]

/-- A certificate that is for the names another one lists is for its hosts. -/
theorem verifyHostname_of_listed (hlisted : ∀ n ∈ prior.dnsNames, leaf.verifyHostname net n = true)
    (hh : net.DNSHost h) (hprior : prior.verifyHostname net h = true) :
    leaf.verifyHostname net h = true := by
  rw [Certificate.verifyHostname, hh.1] at hprior ⊢
  obtain ⟨n, hn, hmatch⟩ := List.any_eq_true.1 hprior
  have hleaf := hlisted n hn
  rw [Certificate.verifyHostname, parseIP_of_matchName hh hmatch] at hleaf
  obtain ⟨m, hm, hmatch'⟩ := List.any_eq_true.1 hleaf
  exact List.any_eq_true.2 ⟨m, hm, matchName_trans hmatch' hmatch⟩

end Certificates

end QuicLab.Go.X509
