import RootShell.ByteText
import RootShell.GlobMatching
import RootShell.AddressPrefixes
import RootShell.RuleLists

/-!
The routing rules of Tailscale mode: how the user's rules compile, and the five
traversals of the compiled list (host and address verdicts, prefixes, exclusions and DNS
domains). The first match wins. The texts net/netip accepts are a parameter.
-/
namespace RoutingRules
open ByteLines ByteText GlobPatterns GlobMatching AddressPrefixes RuleLists

variable {host front back s glob : Bytes}

/-- `none`: no rule matched and the default applies. -/
inductive RouteAction where
  | none
  | ssh
  | direct
  deriving DecidableEq

structure RoutingRuleJSON where
  pattern : Bytes
  action : Bytes

structure RoutingConfigJSON where
  sendAllViaSSH : Bool
  rules : List RoutingRuleJSON

structure AddressTexts where
  parsePrefix : Bytes → Option Prefix
  parseAddr : Bytes → Option Addr
  parse_prefix_valid : ∀ s p, parsePrefix s = some p → p.isValid = true
  parse_addr_valid : ∀ s a, parseAddr s = some a → a.isValid = true

def parseOctet (s : Bytes) : Option Nat := do
  let n ← parseUint 10 s
  if n < 256 ∧ itoa n = s then some n else none

def parseQuad (s : Bytes) : Option (BitVec 32) :=
  match splitN 46 5 s with
  | [a, b, c, d] => do
    let a ← parseOctet a
    let b ← parseOctet b
    let c ← parseOctet c
    let d ← parseOctet d
    some (BitVec.ofNat 32 (((a * 256 + b) * 256 + c) * 256 + d))
  | _ => none

def parseQuadPrefix (s : Bytes) : Option Prefix :=
  match splitN 47 3 s with
  | [a, n] => do
    let word ← parseQuad a
    let bits ← parseOctet n
    if fits : bits < 33 then some (.v4 word ⟨bits, fits⟩) else none
  | _ => none

def quadTexts : AddressTexts where
  parsePrefix := parseQuadPrefix
  parseAddr s := (parseQuad s).map .v4
  parse_prefix_valid := by
    intro s p parsed
    simp only [parseQuadPrefix] at parsed
    split at parsed
    · obtain ⟨word, _, parsed⟩ := Option.bind_eq_some_iff.1 parsed
      obtain ⟨bits, _, parsed⟩ := Option.bind_eq_some_iff.1 parsed
      split at parsed
      · cases parsed
        rfl
      · cases parsed
    · cases parsed
  parse_addr_valid := by
    intro s a parsed
    obtain ⟨word, _, rfl⟩ := Option.map_eq_some_iff.1 parsed
    rfl

/-- A compiled rule has a valid `pfx` or one of the two host patterns, and its action is
    one the user can write. -/
structure RoutingRule where
  action : RouteAction
  pfx : Prefix
  domain : Bytes
  glob : Bytes
  decided : action ≠ .none

structure RouteTable where
  rules : List RoutingRule
  sendAllViaSSH : Bool
  sshEnabled : Bool
  gated : sendAllViaSSH = true → sshEnabled = true

def fakeIPPrefix : Prefix := .ofAddr (.v4 0xC6120000#32) 15

section Compiling

def ruleAction (u : CaseTables) (raw : Bytes) : RouteAction :=
  let s := toLower u (trimSpace raw)
  if s = text "ssh" then .ssh else if s = text "direct" then .direct else .none

def wildcard (b : UInt8) : Bool := b == 42 || b == 63

def compileRule (u : CaseTables) (net : AddressTexts) (raw : RoutingRuleJSON) : Option RoutingRule :=
  if decided : ruleAction u raw.action ≠ .none then
    let r : RoutingRule :=
      { action := ruleAction u raw.action, pfx := .invalid .zero, domain := [], glob := [], decided }
    let s := trimSuffix (text ".") (toLower u (trimSpace raw.pattern))
    -- an empty pattern is no rule, and neither is a comment
    if s = [] ∨ s.head? = some 35 then none
    else
      match net.parsePrefix s with
      | some p => some { r with pfx := p.masked }
      | none =>
        match net.parseAddr (trimSet (text "[]") s) with
        | some a => some { r with pfx := .ofAddr a a.bitLen }
        | none => if s.any wildcard then some { r with glob := s } else some { r with domain := s }
  else none

def compileRouteTable (u : CaseTables) (net : AddressTexts) (cfg : RoutingConfigJSON)
    (sshEnabled : Bool) : RouteTable where
  rules := cfg.rules.filterMap (compileRule u net)
  sendAllViaSSH := cfg.sendAllViaSSH && sshEnabled
  sshEnabled := sshEnabled
  gated := by simp

end Compiling

section Traversals

def RoutingRule.isHostRule (r : RoutingRule) : Bool := r.domain != [] || r.glob != []

def underDomain (domain name : Bytes) : Bool := name == domain || (46 :: domain).isSuffixOf name

def RoutingRule.matchHost (r : RoutingRule) (host : Bytes) : Bool :=
  if r.domain ≠ [] then underDomain r.domain host else r.glob != [] && globMatch r.glob host

namespace RouteTable

def effective (t : RouteTable) (a : RouteAction) : RouteAction :=
  if a = .ssh ∧ t.sshEnabled = false then .none else a

def hostKey (u : CaseTables) (host : Bytes) : Bytes := trimSuffix (text ".") (toLower u host)

def matchHost (u : CaseTables) (t : RouteTable) (host : Bytes) : RouteAction :=
  if host = [] then .none
  else
    verdict (fun r => r.isHostRule && r.matchHost (hostKey u host)) (fun r => t.effective r.action)
      .none t.rules

def matchIP (t : RouteTable) (ip : Addr) : RouteAction :=
  if ip.isValid then
    verdict (fun r => r.pfx.isValid && r.pfx.contains ip.unmap) (fun r => t.effective r.action)
      .none t.rules
  else .none

def prefixes (t : RouteTable) (a : RouteAction) : List Prefix :=
  (t.rules.filter fun r => r.pfx.isValid && t.effective r.action == a).map (·.pfx)

def exclusionsFrom (t : RouteTable) : List Prefix → List RoutingRule → List Prefix
  | _, [] => []
  | ssh, r :: rest =>
    if r.pfx.isValid then
      match t.effective r.action with
      | .ssh => exclusionsFrom t (ssh ++ [r.pfx]) rest
      | .direct =>
        if !r.pfx.overlaps fakeIPPrefix && !ssh.any r.pfx.overlaps then
          r.pfx :: exclusionsFrom t ssh rest
        else exclusionsFrom t ssh rest
      | .none => exclusionsFrom t ssh rest
    else exclusionsFrom t ssh rest

def directExclusions (t : RouteTable) : List Prefix := t.exclusionsFrom [] t.rules

end RouteTable

/-- The literal tail of a glob from its first dot on, without dots at its ends; empty
    where the tail has no dot. -/
def globSuffix (glob : Bytes) : Bytes :=
  trimSet (text ".") ((glob.rtakeWhile fun b => !wildcard b).dropWhile (· != 46))

def RoutingRule.dnsDomain (r : RoutingRule) : Bytes :=
  if r.domain ≠ [] then r.domain else globSuffix r.glob

def RouteTable.dnsDomains (t : RouteTable) (a : RouteAction) : List Bytes :=
  collect ((t.rules.filter fun r => r.isHostRule && t.effective r.action == a).map (·.dnsDomain))

end Traversals

section Verdicts
variable {u : CaseTables} {t : RouteTable} {a : RouteAction} {ip : Addr}

theorem effective_ssh_enabled {b : RouteAction} (ssh : t.effective b = .ssh) : t.sshEnabled = true := by
  simp only [RouteTable.effective] at ssh
  split at ssh
  · cases ssh
  · rename_i carried
    cases enabled : t.sshEnabled with
    | true => rfl
    | false => exact absurd ⟨ssh, enabled⟩ carried

theorem effective_on (enabled : t.sshEnabled = true) (a : RouteAction) : t.effective a = a := by
  simp [RouteTable.effective, enabled]

theorem match_ip_unmap (t : RouteTable) (ip : Addr) : t.matchIP ip.unmap = t.matchIP ip := by
  simp only [RouteTable.matchIP, Addr.unmap_valid, Addr.unmap_unmap]

theorem match_ip_listed (other : a ≠ .none) (found : t.matchIP ip = a) :
    ∃ p ∈ t.prefixes a, p.contains ip.unmap = true := by
  subst found
  simp only [RouteTable.matchIP] at other ⊢
  split at other
  · rename_i valid
    obtain ⟨r, member, hit, same⟩ := verdict_found other
    simp only [Bool.and_eq_true] at hit
    refine ⟨r.pfx, List.mem_map.2 ⟨r, ?_, rfl⟩, hit.2⟩
    simp only [valid, if_true]
    simp [List.mem_filter, member, hit.1, same]
  · exact absurd rfl other

theorem match_ip_ssh_enabled (found : t.matchIP ip = .ssh) : t.sshEnabled = true := by
  obtain ⟨p, member, _⟩ := match_ip_listed RouteAction.noConfusion found
  obtain ⟨r, listed, _⟩ := List.mem_map.1 member
  simp only [List.mem_filter, Bool.and_eq_true, beq_iff_eq] at listed
  exact effective_ssh_enabled listed.2.2

theorem match_host_rule (other : a ≠ .none) (found : t.matchHost u host = a) :
    ∃ r ∈ t.rules, r.isHostRule = true ∧ r.matchHost (RouteTable.hostKey u host) = true ∧
      t.effective r.action = a := by
  subst found
  simp only [RouteTable.matchHost] at other ⊢
  split at other
  · exact absurd rfl other
  · rename_i named
    obtain ⟨r, member, hit, same⟩ := verdict_found other
    simp only [Bool.and_eq_true] at hit
    refine ⟨r, member, hit.1, hit.2, ?_⟩
    simpa only [if_neg named] using same

theorem mem_dns_domains {r : RoutingRule} (member : r ∈ t.rules) (hosted : r.isHostRule = true)
    (action : t.effective r.action = a) : r.dnsDomain ∈ t.dnsDomains a := by
  refine mem_collect.2 (List.mem_map.2 ⟨r, ?_, rfl⟩)
  simp [List.mem_filter, member, hosted, action]

end Verdicts

section Exclusions
variable {t : RouteTable} {p : Prefix}

structure RouteTable.Excludes (t : RouteTable) (front : List RoutingRule) (r : RoutingRule) : Prop where
  valid : r.pfx.isValid = true
  direct : t.effective r.action = .direct
  real : r.pfx.overlaps fakeIPPrefix = false
  unclaimed : ∀ s ∈ front, s.pfx.isValid = true → t.effective s.action = .ssh →
    r.pfx.overlaps s.pfx = false

theorem mem_exclusions_from (rules : List RoutingRule) (ssh : List Prefix) (member : p ∈ t.exclusionsFrom ssh rules) :
    ∃ front r back, rules = front ++ r :: back ∧ r.pfx = p ∧ t.Excludes front r ∧
      ∀ q ∈ ssh, p.overlaps q = false := by
  induction rules generalizing ssh with
  | nil => simp [RouteTable.exclusionsFrom] at member
  | cons r rest ih =>
    -- a rule found further on has `r` in front of it, which claims nothing new unless it
    -- is an SSH rule
    have later : ∀ {qs : List Prefix}, p ∈ t.exclusionsFrom qs rest → (∀ q ∈ ssh, q ∈ qs) →
        (r.pfx.isValid = true → t.effective r.action = .ssh → r.pfx ∈ qs) →
        ∃ front s back, r :: rest = front ++ s :: back ∧ s.pfx = p ∧ t.Excludes front s ∧
          ∀ q ∈ ssh, p.overlaps q = false := by
      intro qs found kept claimed
      obtain ⟨front, s, back, split, same, excludes, clear⟩ := ih qs found
      refine ⟨r :: front, s, back, by rw [split]; rfl, same, ?_, fun q old => clear q (kept q old)⟩
      refine { excludes with unclaimed := ?_ }
      intro q place valid action
      rcases List.mem_cons.1 place with rfl | earlier
      · rw [same]
        exact clear _ (claimed valid action)
      · exact excludes.unclaimed q earlier valid action
    rw [RouteTable.exclusionsFrom] at member
    split at member
    · rename_i valid
      split at member
      · exact later member (fun q old => List.mem_append_left _ old) fun _ _ => by simp
      · rename_i direct
        split at member
        · rename_i clear
          simp only [Bool.and_eq_true, Bool.not_eq_true', List.any_eq_false] at clear
          rcases List.mem_cons.1 member with rfl | further
          · refine ⟨[], r, rest, rfl, rfl, ⟨valid, direct, clear.1, by simp⟩, ?_⟩
            intro q old
            simpa using clear.2 q old
          · exact later further (fun q old => old) fun _ ssh => by rw [direct] at ssh; cases ssh
        · exact later member (fun q old => old) fun _ ssh => by rw [direct] at ssh; cases ssh
      · rename_i idle
        exact later member (fun q old => old) fun _ ssh => by rw [idle] at ssh; cases ssh
    · rename_i invalid
      exact later member (fun q old => old) fun valid => absurd valid invalid

theorem mem_direct_exclusions (member : p ∈ t.directExclusions) :
    ∃ front r back, t.rules = front ++ r :: back ∧ r.pfx = p ∧ t.Excludes front r := by
  obtain ⟨front, r, back, split, same, excludes, _⟩ := mem_exclusions_from t.rules [] member
  exact ⟨front, r, back, split, same, excludes⟩

theorem exclusion_real (member : p ∈ t.directExclusions) : p.overlaps fakeIPPrefix = false := by
  obtain ⟨front, r, back, _, rfl, excludes⟩ := mem_direct_exclusions member
  exact excludes.real

theorem exclusion_valid (member : p ∈ t.directExclusions) : p.isValid = true := by
  obtain ⟨front, r, back, _, rfl, excludes⟩ := mem_direct_exclusions member
  exact excludes.valid

/-- The prefix-wise test is enough: an address inside an exclusion has the direct verdict,
    for an earlier SSH rule around it would overlap the exclusion. -/
theorem exclusion_direct {ip : Addr} (enabled : t.sshEnabled = true) (member : p ∈ t.directExclusions)
    (inside : p.contains ip.unmap = true) : t.matchIP ip = .direct := by
  obtain ⟨front, r, back, split, rfl, excludes⟩ := mem_direct_exclusions member
  have valid : ip.isValid = true := by
    rw [← Addr.unmap_valid]
    exact Prefix.contains_addr_valid inside
  have hit : (r.pfx.isValid && r.pfx.contains ip.unmap) = true := by
    rw [excludes.valid, inside]
    rfl
  simp only [RouteTable.matchIP, valid, if_true]
  rcases verdict_in_front (fun r => r.pfx.isValid && r.pfx.contains ip.unmap)
    (fun r => t.effective r.action) .none split hit with own | earlier
  · rw [own, excludes.direct]
  · obtain ⟨s, place, hits, same⟩ := earlier
    simp only [Bool.and_eq_true] at hits
    rw [same]
    cases action : t.effective s.action with
    | direct => rfl
    | none =>
      rw [effective_on enabled] at action
      exact absurd action s.decided
    | ssh =>
      have apart := excludes.unclaimed s place hits.1 action
      rw [Prefix.contains_overlaps inside hits.2] at apart
      cases apart

end Exclusions

section Domains

def Labelled (name : Bytes) : Prop := [] ∉ name.splitOn 46

instance : DecidablePred Labelled := fun _ => inferInstanceAs (Decidable (¬ _))

theorem labelled_after_dot (labels : Labelled (front ++ 46 :: back)) : Labelled back := by
  intro empty
  apply labels
  rw [List.splitOn_append_cons_self]
  exact List.mem_append_right _ empty

theorem labelled_before_dot (labels : Labelled (front ++ 46 :: back)) : Labelled front := by
  intro empty
  apply labels
  rw [List.splitOn_append_cons_self]
  exact List.mem_append_left _ empty

theorem not_labelled_nil : ¬ Labelled [] := by decide

theorem trim_dots (labels : Labelled s) : trimSet (text ".") (46 :: s) = s := by
  have dot : text "." = [46] := by decide
  have noFront : (s.dropWhile fun b => [46].contains b) = s := by
    cases s with
    | nil => rfl
    | cons b s =>
      have other : b ≠ 46 := by
        rintro rfl
        have first : Labelled ([] ++ 46 :: s) := labels
        exact not_labelled_nil (labelled_before_dot first)
      simp [other]
  have noBack : trimRight [46] s = s := by
    rcases List.eq_nil_or_concat s with rfl | ⟨front, b, rfl⟩
    · rfl
    · rw [List.concat_eq_append] at labels ⊢
      apply trim_right_stop
      intro last
      rw [List.mem_singleton.1 last] at labels
      exact not_labelled_nil (labelled_after_dot labels)
  rw [dot, trimSet, List.dropWhile_cons_of_pos (by decide), noFront, noBack]

theorem glob_suffix_covers (labels : Labelled host) (found : globMatch glob host = true) :
    globSuffix glob = [] ∨ underDomain (globSuffix glob) host = true := by
  obtain ⟨front, split⟩ := List.rtakeWhile_suffix (fun b => !wildcard b) glob
  have plain : 42 ∉ (glob.rtakeWhile fun b => !wildcard b) ∧
      63 ∉ (glob.rtakeWhile fun b => !wildcard b) := by
    constructor
    · intro star
      exact absurd (List.mem_rtakeWhile_imp star) (by decide)
    · intro mark
      exact absurd (List.mem_rtakeWhile_imp mark) (by decide)
  have tail := matches_suffix split.symm plain (glob_match_sound found)
  cases dotted : (glob.rtakeWhile fun b => !wildcard b).dropWhile (· != 46) with
  | nil =>
    left
    rw [globSuffix, dotted]
    decide
  | cons b rest =>
    have dot : b = 46 := by
      have first := List.head?_dropWhile_not (· != 46) (glob.rtakeWhile fun b => !wildcard b)
      rw [dotted] at first
      simpa using first
    subst dot
    have ends : (46 :: rest) <:+ host := by
      rw [← dotted]
      exact (List.dropWhile_suffix _).trans tail
    obtain ⟨labelled, whole⟩ := ends
    right
    rw [← whole] at labels
    rw [globSuffix, dotted, trim_dots (labelled_after_dot labels), underDomain]
    have suffix : (46 :: rest).isSuffixOf host = true := List.isSuffixOf_iff_suffix.2 ⟨labelled, whole⟩
    rw [suffix, Bool.or_true]

theorem rule_domain_covers {r : RoutingRule} (labels : Labelled host) (found : r.matchHost host = true) :
    r.dnsDomain = [] ∨ underDomain r.dnsDomain host = true := by
  simp only [RoutingRule.matchHost, RoutingRule.dnsDomain] at found ⊢
  split at found
  · rename_i named
    right
    rwa [if_pos named]
  · rename_i unnamed
    rw [if_neg unnamed]
    simp only [Bool.and_eq_true] at found
    exact glob_suffix_covers labels found.2

end Domains

end RoutingRules
