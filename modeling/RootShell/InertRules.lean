import RootShell.RoutingRules

/-!
SSH rules in a table without an SSH host. Such a table gives an SSH rule the default
verdict, but the rule keeps its place in the list: it still ends the search for a match.
-/
namespace InertRules
open ByteLines ByteText AddressPrefixes RuleLists RoutingRules

variable {u : CaseTables} {net : AddressTexts} {cfg : RoutingConfigJSON}

theorem compile_rule_spec {raw : RoutingRuleJSON} {r : RoutingRule} (compiled : compileRule u net raw = some r) :
    r.action = ruleAction u raw.action ∧ (r.pfx.isValid = true ∨ r.isHostRule = true) := by
  simp only [compileRule] at compiled
  split at compiled
  · rename_i decided
    generalize shape : trimSuffix (text ".") (toLower u (trimSpace raw.pattern)) = s at compiled
    split at compiled
    · cases compiled
    · rename_i filled
      have nonempty : s ≠ [] := fun empty => filled (Or.inl empty)
      split at compiled
      · rename_i p parsed
        cases compiled
        exact ⟨rfl, Or.inl ((Prefix.masked_valid p).trans (net.parse_prefix_valid _ _ parsed))⟩
      · split at compiled
        · rename_i a parsed
          cases compiled
          exact ⟨rfl, Or.inl (Prefix.of_addr_valid (net.parse_addr_valid _ _ parsed))⟩
        · split at compiled
          · cases compiled
            exact ⟨rfl, Or.inr (by simp [RoutingRule.isHostRule, nonempty])⟩
          · cases compiled
            exact ⟨rfl, Or.inr (by simp [RoutingRule.isHostRule, nonempty])⟩
  · cases compiled

def withoutSSH (u : CaseTables) (cfg : RoutingConfigJSON) : RoutingConfigJSON :=
  { cfg with rules := cfg.rules.filter fun raw => ruleAction u raw.action != .ssh }

def notSSH (r : RoutingRule) : Bool := r.action != .ssh

theorem compile_without_ssh (sshEnabled : Bool) :
    (compileRouteTable u net (withoutSSH u cfg) sshEnabled).rules =
      (compileRouteTable u net cfg sshEnabled).rules.filter notSSH := by
  simp only [compileRouteTable, withoutSSH]
  induction cfg.rules with
  | nil => rfl
  | cons raw rest ih =>
    cases compiled : compileRule u net raw with
    | none =>
      rw [List.filterMap_cons_none compiled, ← ih, List.filter_cons]
      split
      · rw [List.filterMap_cons_none compiled]
      · rfl
    | some r =>
      have same : notSSH r = (ruleAction u raw.action != .ssh) := by
        rw [notSSH, (compile_rule_spec compiled).1]
      rw [List.filterMap_cons_some compiled, List.filter_cons, List.filter_cons, same]
      split
      · rw [List.filterMap_cons_some compiled, ih]
      · exact ih

def Unshadowed (u : CaseTables) (t : RouteTable) : Prop :=
  (∀ host, host ≠ [] →
    ¬ Shadowed (fun r => r.isHostRule && r.matchHost (RouteTable.hostKey u host)) notSSH t.rules) ∧
  (∀ ip : Addr, ip.isValid = true →
    ¬ Shadowed (fun r => r.pfx.isValid && r.pfx.contains ip.unmap) notSSH t.rules)

structure SameFor (t s : RouteTable) (a : RouteAction) : Prop where
  prefixes : t.prefixes a = s.prefixes a
  dnsDomains : t.dnsDomains a = s.dnsDomains a

structure SameVerdicts (u : CaseTables) (t s : RouteTable) : Prop where
  matchHost : ∀ host, t.matchHost u host = s.matchHost u host
  matchIP : ∀ ip, t.matchIP ip = s.matchIP ip
  directExclusions : t.directExclusions = s.directExclusions

theorem effective_direct (t : RouteTable) : t.effective .direct = .direct := by
  simp [RouteTable.effective]

theorem direct_of_not_ssh {r : RoutingRule} (kept : notSSH r = true) : r.action = .direct := by
  have decided := r.decided
  simp only [notSSH] at kept
  cases action : r.action with
  | none => exact absurd action decided
  | ssh => simp [action] at kept
  | direct => rfl

section Without
variable {t s : RouteTable}

theorem idle_ssh (off : t.sshEnabled = false) (r : RoutingRule) (ssh : notSSH r = false) :
    t.effective r.action = .none := by
  have action : r.action = .ssh := by simpa [notSSH] using ssh
  simp [RouteTable.effective, action, off]

theorem active_direct (r : RoutingRule) (kept : notSSH r = true) : t.effective r.action ≠ .none := by
  rw [direct_of_not_ssh kept, effective_direct]
  exact RouteAction.noConfusion

theorem effective_same (off : t.sshEnabled = false) (off' : s.sshEnabled = false) : s.effective = t.effective := by
  funext a
  simp only [RouteTable.effective, off, off']

theorem verdict_without (off : t.sshEnabled = false) (off' : s.sshEnabled = false)
    (rest : s.rules = t.rules.filter notSSH) (hits : RoutingRule → Bool) :
    verdict hits (fun r => t.effective r.action) .none t.rules =
        verdict hits (fun r => s.effective r.action) .none s.rules ↔
      ¬ Shadowed hits notSSH t.rules := by
  rw [rest, effective_same off off', eq_comm]
  exact verdict_kept_iff (idle_ssh off) fun r _ => active_direct r

theorem exclusions_without (off : t.sshEnabled = false) (ssh : List Prefix) (rules : List RoutingRule) :
    s.exclusionsFrom ssh (rules.filter notSSH) = t.exclusionsFrom ssh rules := by
  induction rules with
  | nil => rfl
  | cons r rules ih =>
    cases kept : notSSH r with
    | true =>
      have action := direct_of_not_ssh kept
      simp only [List.filter_cons, kept, if_true, RouteTable.exclusionsFrom, action, effective_direct,
        ih]
    | false =>
      simp only [List.filter_cons, kept, Bool.false_eq_true, if_false, RouteTable.exclusionsFrom,
        idle_ssh off r kept, ite_self, ih]

theorem filter_without (off : t.sshEnabled = false) (off' : s.sshEnabled = false)
    (rest : s.rules = t.rules.filter notSSH) {a : RouteAction} (listed : a ≠ .none) (shape : RoutingRule → Bool) :
    (s.rules.filter fun r => shape r && s.effective r.action == a) =
      t.rules.filter fun r => shape r && t.effective r.action == a := by
  rw [rest, effective_same off off', List.filter_filter]
  apply List.filter_congr
  intro r _
  cases kept : notSSH r with
  | true => rw [Bool.and_true]
  | false =>
    rw [idle_ssh off r kept]
    simp [Ne.symm listed]

theorem same_for_without (off : t.sshEnabled = false) (off' : s.sshEnabled = false)
    (rest : s.rules = t.rules.filter notSSH) {a : RouteAction} (listed : a ≠ .none) : SameFor t s a where
  prefixes := by
    rw [RouteTable.prefixes, RouteTable.prefixes, filter_without off off' rest listed]
  dnsDomains := by
    rw [RouteTable.dnsDomains, RouteTable.dnsDomains, filter_without off off' rest listed]

theorem same_verdicts_without (off : t.sshEnabled = false) (off' : s.sshEnabled = false)
    (rest : s.rules = t.rules.filter notSSH) : SameVerdicts u t s ↔ Unshadowed u t := by
  have exclusions : t.directExclusions = s.directExclusions := by
    rw [RouteTable.directExclusions, RouteTable.directExclusions, rest, exclusions_without off]
  constructor
  · intro same
    constructor
    · intro host named
      have here := same.matchHost host
      simp only [RouteTable.matchHost, if_neg named] at here
      exact (verdict_without off off' rest _).1 here
    · intro ip valid
      have here := same.matchIP ip
      simp only [RouteTable.matchIP, valid, if_true] at here
      exact (verdict_without off off' rest _).1 here
  · intro clear
    refine ⟨fun host => ?_, fun ip => ?_, exclusions⟩
    · simp only [RouteTable.matchHost]
      split
      · rfl
      · rename_i named
        exact (verdict_without off off' rest _).2 (clear.1 host named)
    · simp only [RouteTable.matchIP]
      split
      · rename_i valid
        exact (verdict_without off off' rest _).2 (clear.2 ip valid)
      · rfl

theorem none_listed (rest : s.rules = t.rules.filter notSSH) (shape : RoutingRule → Bool) :
    (s.rules.filter fun r => shape r && s.effective r.action == .none) = [] := by
  rw [rest, List.filter_eq_nil_iff]
  intro r member listed
  have kept := (List.mem_filter.1 member).2
  rw [direct_of_not_ssh kept, effective_direct] at listed
  simp at listed

theorem mem_listed_none (off : t.sshEnabled = false) (shape : RoutingRule → Bool) {r : RoutingRule}
    (member : r ∈ t.rules) (ssh : r.action = .ssh) (shaped : shape r = true) :
    r ∈ t.rules.filter fun r => shape r && t.effective r.action == .none := by
  have idle := idle_ssh off r (by simp [notSSH, ssh])
  simp [List.mem_filter, member, shaped, idle]

theorem same_for_none_iff (off : t.sshEnabled = false) (off' : s.sshEnabled = false)
    (rest : s.rules = t.rules.filter notSSH) (addressed : ∀ r ∈ t.rules, r.pfx.isValid = true ∨ r.isHostRule = true) :
    SameFor t s .none ↔ ∀ r ∈ t.rules, r.action ≠ .ssh := by
  constructor
  · intro same r member ssh
    cases addressed r member with
    | inl valid =>
      have listed := List.mem_map_of_mem (f := (·.pfx)) (mem_listed_none off (·.pfx.isValid) member ssh valid)
      have empty := same.prefixes
      rw [RouteTable.prefixes, RouteTable.prefixes, none_listed rest] at empty
      rw [empty] at listed
      simp at listed
    | inr hosted =>
      have listed := mem_collect.2
        (List.mem_map_of_mem (f := (·.dnsDomain)) (mem_listed_none off (·.isHostRule) member ssh hosted))
      have empty := same.dnsDomains
      rw [RouteTable.dnsDomains, RouteTable.dnsDomains, none_listed rest] at empty
      rw [empty] at listed
      simp [collect] at listed
  · intro clear
    have whole : s.rules = t.rules := by
      rw [rest, List.filter_eq_self]
      intro r member
      simp [notSSH, clear r member]
    constructor
    · rw [RouteTable.prefixes, RouteTable.prefixes, whole, effective_same off off']
    · rw [RouteTable.dnsDomains, RouteTable.dnsDomains, whole, effective_same off off']

end Without

theorem compiled_addressed (sshEnabled : Bool) :
    ∀ r ∈ (compileRouteTable u net cfg sshEnabled).rules,
      r.pfx.isValid = true ∨ r.isHostRule = true := by
  intro r member
  obtain ⟨raw, _, compiled⟩ := List.mem_filterMap.1 member
  exact (compile_rule_spec compiled).2

/-- Without an SSH host the SSH rules are as good as absent from the verdicts exactly where
    none of them preempts a direct rule. They are absent from the lists for the two
    actions, and from those for the default action only when there are none. -/
theorem ssh_rules_inert_iff (u : CaseTables) (net : AddressTexts) (cfg : RoutingConfigJSON) :
    let t := compileRouteTable u net cfg false
    let s := compileRouteTable u net (withoutSSH u cfg) false
    ((SameVerdicts u t s ∧ ∀ a, SameFor t s a) ↔ ∀ r ∈ t.rules, r.action ≠ .ssh) ∧
      ((SameVerdicts u t s ∧ ∀ a, a ≠ .none → SameFor t s a) ↔ Unshadowed u t) := by
  intro t s
  have rest : s.rules = t.rules.filter notSSH := compile_without_ssh false
  have verdicts : SameVerdicts u t s ↔ Unshadowed u t := same_verdicts_without rfl rfl rest
  have lists : ∀ a, a ≠ .none → SameFor t s a := fun a => same_for_without rfl rfl rest
  have none : SameFor t s .none ↔ ∀ r ∈ t.rules, r.action ≠ .ssh :=
    same_for_none_iff rfl rfl rest (compiled_addressed false)
  refine ⟨⟨fun same => none.1 (same.2 .none), fun clear => ⟨verdicts.2 ?_, fun a => ?_⟩⟩,
    ⟨fun same => verdicts.1 same.1, fun clear => ⟨verdicts.2 clear, lists⟩⟩⟩
  · -- with no SSH rule there is nothing to shadow with
    have unshadowed : ∀ hits, ¬ Shadowed hits notSSH t.rules := by
      rintro hits ⟨r, found, ssh, _⟩
      exact clear r (List.mem_of_find?_eq_some found) (by simpa [notSSH] using ssh)
    exact ⟨fun _ _ => unshadowed _, fun _ _ => unshadowed _⟩
  · by_cases listed : a = .none
    · exact listed ▸ none.2 clear
    · exact lists a listed

def shadowingConfig : RoutingConfigJSON where
  sendAllViaSSH := false
  rules :=
    [⟨text "example.com", text "ssh"⟩, ⟨text "10.0.0.0/8", text "ssh"⟩,
      ⟨text "example.com", text "direct"⟩, ⟨text "10.1.0.0/16", text "direct"⟩]

/-- Without an SSH host the first rule still takes its name from the direct rule, and the
    second its addresses. -/
theorem ssh_rule_shadows_direct :
    let t := compileRouteTable latinTables quadTexts shadowingConfig false
    let s := compileRouteTable latinTables quadTexts (withoutSSH latinTables shadowingConfig) false
    t.matchHost latinTables (text "example.com") = .none ∧
      s.matchHost latinTables (text "example.com") = .direct ∧
      t.matchIP (.v4 0x0A010203#32) = .none ∧ s.matchIP (.v4 0x0A010203#32) = .direct := by
  decide +kernel

end InertRules
