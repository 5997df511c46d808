import RootShell.ByteText
import RootShell.GlobPatterns
import RootShell.RuleLists

/-!
The host entries of a capture config (vpntunnel/hostmatch.go): which hosts are intercepted
on which ports, and the summary of their ports that decides where to peek.
-/
namespace HostRules
open ByteLines ByteText GlobPatterns RuleLists

variable {sep s front back host portStr raw : Bytes}

/-- A port of -1 stands for the default, 443, and 0 for every port. -/
structure HostRule where
  exclude : Bool
  pattern : Bytes
  port : Int
  deriving DecidableEq

structure HostMatcher where
  rules : List HostRule
  ports : List Int
  anyPort : Bool

section Compiling
variable (u : CaseTables)

def cutLast (sep s : Bytes) : Option (Bytes × Bytes) :=
  (s.tails.reverse.find? fun t => sep.isPrefixOf t).map fun t => (s.take (s.length - t.length), t.drop sep.length)

/-- Bare IPv6 literals, which have more than one colon, are left alone. -/
def splitRulePort (s : Bytes) : Option (Bytes × Bytes) :=
  if s.head? = some 91 then
    match cutLast (text "]:") s with
    | some (front, back) => if front ≠ [] then some (front ++ [93], back) else none
    | none => none
  else if s.count 58 ≠ 1 then none
  else cutLast [58] s

def rulePort (s : Bytes) : Bytes × Int :=
  match splitRulePort s with
  | some (host, portStr) =>
    match parseInt 10 portStr with
    | some p => if 0 ≤ p ∧ p ≤ 65535 then (host, p) else (s, -1)
    | none => (s, -1)
  | none => (s, -1)

def entryText (raw : Bytes) : Bytes := toLower u (trimSpace raw)

def hostRule (raw : Bytes) : Option HostRule :=
  let s := entryText u raw
  if s = [] ∨ s.head? = some 35 then none
  else
    let exclude := s.head? = some 45
    let s := trimSuffix (text ".") (if exclude then trimSpace s.tail else s)
    let pattern := trimSet (text "[]") (rulePort s).1
    if pattern = [] then none else some ⟨exclude, pattern, (rulePort s).2⟩

def HostMatcher.add (m : HostMatcher) (r : HostRule) : HostMatcher where
  rules := m.rules ++ [r]
  ports := if r.exclude = false ∧ 0 < r.port then r.port :: m.ports else m.ports
  anyPort := if r.exclude = false ∧ r.port = 0 then true else m.anyPort

def compileHostRules (entries : List Bytes) : HostMatcher :=
  entries.foldl (fun m raw => (hostRule u raw).elim m m.add) ⟨[], [], false⟩

end Compiling

section Matching

def HostRule.portMatches (r : HostRule) (port : Int) : Bool :=
  if r.port = -1 then port = 443 else if r.port = 0 then true else port = r.port

def isMatch (u : CaseTables) (m : Option HostMatcher) (host : Bytes) (port : Int) : Bool :=
  match m with
  | none => false
  | some m =>
    if host = [] then false
    else
      let host := trimSuffix (text ".") (toLower u host)
      verdict (fun r => r.portMatches port && globMatch r.pattern host) (fun r => !r.exclude) false m.rules

def hasExplicitPort (m : Option HostMatcher) (port : Int) : Bool := m.any fun m => m.anyPort || m.ports.contains port

end Matching

variable {r : HostRule}

section Ports

theorem cut_last_eq (cut : cutLast sep s = some (front, back)) : s = front ++ sep ++ back := by
  unfold cutLast at cut
  obtain ⟨t, found, parts⟩ := Option.map_eq_some_iff.1 cut
  obtain ⟨before, rfl⟩ := (List.mem_tails _ _).1 (List.mem_reverse.1 (List.mem_of_find?_eq_some found))
  obtain ⟨rest, rfl⟩ := List.isPrefixOf_iff_prefix.1 (List.find?_some found)
  cases parts
  simp

theorem cut_last_behind {sep : UInt8} (absent : sep ∉ back) (front : Bytes) :
    cutLast [sep] (front ++ sep :: back) = some (front, back) := by
  have found : (front ++ sep :: back).tails.reverse.find? (fun t => [sep].isPrefixOf t) = some (sep :: back) := by
    induction front with
    | nil =>
      have before : back.tails.reverse.find? (fun t => [sep].isPrefixOf t) = none := by
        rw [List.find?_eq_none]
        intro t member starts
        obtain ⟨rest, rfl⟩ := List.isPrefixOf_iff_prefix.1 starts
        have suffix := (List.mem_tails _ _).1 (List.mem_reverse.1 member)
        exact absent (suffix.subset (by simp))
      simp only [List.nil_append, List.tails_cons, List.reverse_cons, List.find?_append, before]
      simp
    | cons b front ih =>
      simp only [List.cons_append, List.tails_cons, List.reverse_cons, List.find?_append, ih]
      rfl
  rw [cutLast, found]
  simp

theorem split_rule_port_eq (split : splitRulePort s = some (host, portStr)) : s = host ++ 58 :: portStr := by
  unfold splitRulePort at split
  split at split
  · split at split
    · rename_i front back cut
      split at split
      · cases split
        simpa [show text "]:" = [93, 58] from rfl] using cut_last_eq cut
      · cases split
    · cases split
  · split at split
    · cases split
    · simpa using cut_last_eq split

theorem rule_port_cases (s : Bytes) :
    (rulePort s).2 = -1 ∨
      0 ≤ (rulePort s).2 ∧ ∃ host portStr, s = host ++ 58 :: portStr ∧ parseInt 10 portStr = some (rulePort s).2 := by
  unfold rulePort
  split
  · rename_i host portStr split
    split
    · rename_i p parsed
      split
      · rename_i range
        exact Or.inr ⟨range.1, host, portStr, split_rule_port_eq split, parsed⟩
      · exact Or.inl rfl
    · exact Or.inl rfl
  · exact Or.inl rfl

def Names (u : CaseTables) (raw : Bytes) (p : Int) : Prop :=
  (entryText u raw).head? ≠ some 35 ∧ (entryText u raw).head? ≠ some 45 ∧
    ∃ host portStr, trimSuffix (text ".") (entryText u raw) = host ++ 58 :: portStr ∧ parseInt 10 portStr = some p

theorem host_rule_names {u : CaseTables} (read : hostRule u raw = some r)
    (listed : r.exclude = false) : r.port = -1 ∨ 0 ≤ r.port ∧ Names u raw r.port := by
  simp only [hostRule, Option.ite_none_left_eq_some, Option.some.injEq, not_or] at read
  obtain ⟨⟨_, plain⟩, _, rfl⟩ := read
  have included : (entryText u raw).head? ≠ some 45 := of_decide_eq_false listed
  simp only [included, ↓reduceIte]
  rcases rule_port_cases (trimSuffix (text ".") (entryText u raw)) with default | ⟨least, named⟩
  · exact Or.inl default
  · exact Or.inr ⟨least, plain, included, named⟩

end Ports

section Summary
variable {u : CaseTables} {m : HostMatcher} {entries : List Bytes} {port : Int}

structure Summed (m : HostMatcher) : Prop where
  ports : ∀ p, p ∈ m.ports ↔ 0 < p ∧ ∃ r ∈ m.rules, r.exclude = false ∧ r.port = p
  anyPort : m.anyPort = true ↔ ∃ r ∈ m.rules, r.exclude = false ∧ r.port = 0

theorem add_summed (summed : Summed m) (r : HostRule) : Summed (m.add r) := by
  constructor
  · intro p
    have before := summed.ports p
    unfold HostMatcher.add
    dsimp only
    split <;> grind
  · have before := summed.anyPort
    unfold HostMatcher.add
    dsimp only
    split <;> grind

theorem fold_rules (m : HostMatcher) :
    (entries.foldl (fun m raw => (hostRule u raw).elim m m.add) m).rules =
      m.rules ++ entries.filterMap (hostRule u) := by
  induction entries generalizing m with
  | nil => simp
  | cons raw entries ih =>
    rw [List.foldl_cons, ih]
    cases read : hostRule u raw with
    | none => simp [read]
    | some r => simp [read, HostMatcher.add]

theorem compiled_rules (u : CaseTables) (entries : List Bytes) :
    (compileHostRules u entries).rules = entries.filterMap (hostRule u) := by
  rw [compileHostRules, fold_rules, List.nil_append]

theorem compiled_summed (u : CaseTables) (entries : List Bytes) : Summed (compileHostRules u entries) := by
  suffices run : ∀ m, Summed m → Summed (entries.foldl (fun m raw => (hostRule u raw).elim m m.add) m) by
    exact run _ ⟨by simp, by simp⟩
  induction entries with
  | nil => exact fun m summed => summed
  | cons raw entries ih =>
    intro m summed
    rw [List.foldl_cons]
    refine ih _ ?_
    cases hostRule u raw with
    | none => exact summed
    | some r => exact add_summed summed r

theorem compiled_rule (member : r ∈ (compileHostRules u entries).rules) :
    ∃ raw ∈ entries, hostRule u raw = some r := by
  rw [compiled_rules] at member
  exact List.mem_filterMap.1 member

theorem explicit_of_rule (summed : Summed m) (member : r ∈ m.rules) (listed : r.exclude = false)
    (range : r.port = -1 ∨ 0 ≤ r.port) (fits : r.portMatches port = true) :
    port = 443 ∨ hasExplicitPort (some m) port = true := by
  unfold HostRule.portMatches at fits
  split at fits
  · exact Or.inl (of_decide_eq_true fits)
  · rename_i named
    right
    split at fits
    · rename_i zero
      have every : m.anyPort = true := summed.anyPort.2 ⟨r, member, listed, zero⟩
      simp [hasExplicitPort, every]
    · have here : port = r.port := of_decide_eq_true fits
      have listed' : port ∈ m.ports := (summed.ports port).2 ⟨by omega, r, member, listed, here.symm⟩
      simp [hasExplicitPort, listed']

theorem match_explicit (found : isMatch u (some (compileHostRules u entries)) host port = true) :
    port = 443 ∨ hasExplicitPort (some (compileHostRules u entries)) port = true := by
  simp only [isMatch] at found
  split at found
  · cases found
  · obtain ⟨r, member, hit, included⟩ := verdict_found (ne_of_eq_of_ne found (by simp))
    rw [found, Bool.not_eq_true'] at included
    rw [Bool.and_eq_true] at hit
    obtain ⟨raw, _, read⟩ := compiled_rule member
    have range := (host_rule_names read included).imp_right And.left
    exact explicit_of_rule (compiled_summed u entries) member included range hit.1

theorem explicit_named (explicit : hasExplicitPort (some (compileHostRules u entries)) port = true) :
    ∃ raw ∈ entries, Names u raw port ∨ Names u raw 0 := by
  have summed := compiled_summed u entries
  simp only [hasExplicitPort, Option.any_some, Bool.or_eq_true, List.contains_iff_mem] at explicit
  rcases explicit with every | listed
  · obtain ⟨r, member, included, zero⟩ := summed.anyPort.1 every
    obtain ⟨raw, entry, read⟩ := compiled_rule member
    rcases host_rule_names read included with default | ⟨_, named⟩
    · omega
    · exact ⟨raw, entry, Or.inr (zero ▸ named)⟩
  · obtain ⟨positive, r, member, included, here⟩ := (summed.ports port).1 listed
    obtain ⟨raw, entry, read⟩ := compiled_rule member
    rcases host_rule_names read included with default | ⟨_, named⟩
    · omega
    · exact ⟨raw, entry, Or.inl (here ▸ named)⟩

end Summary

end HostRules
