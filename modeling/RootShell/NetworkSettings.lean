import RootShell.TunnelPath

/-!
The network settings Tailscale mode asks the OS for. They decide which packets and queries the
tunnel sees at all. The settings are built in the order of the source; routes and addresses stand
for their texts.
-/
namespace NetworkSettings
open ByteLines ByteText AddressPrefixes RuleLists RoutingRules TunnelPath

section Building

structure TunnelNetworkSettings where
  ipv4Addresses : List Addr
  ipv4Routes : List Prefix
  ipv4Excluded : List Prefix
  ipv6Addresses : List Addr
  ipv6Routes : List Prefix
  dnsServers : List Addr
  matchDomains : List Bytes
  searchDomains : List Bytes
  fullTunnel : Bool
  mtu : Nat

def tailnetMTU : Nat := 1280

def placeholderTunnelAddr : Addr := .v4 0x0A000002#32

/-- All invalid prefixes have the same text. -/
def spelled (p : Prefix) : Prefix := if p.isValid then p else .invalid .zero

def addRoute (s : TunnelNetworkSettings) (p : Prefix) : TunnelNetworkSettings :=
  if p.addr.is4 then { s with ipv4Routes := addNew s.ipv4Routes (spelled p) }
  else { s with ipv6Routes := addNew s.ipv6Routes (spelled p) }

def addAddress (s : TunnelNetworkSettings) (a : Prefix) : TunnelNetworkSettings :=
  if a.addr.is4 then { s with ipv4Addresses := addNew s.ipv4Addresses a.addr }
  else { s with ipv6Addresses := addNew s.ipv6Addresses a.addr }

def initial (p : TailnetPath) : TunnelNetworkSettings where
  ipv4Addresses := []
  ipv4Routes := []
  ipv4Excluded := []
  ipv6Addresses := []
  ipv6Routes := []
  dnsServers := []
  matchDomains := []
  searchDomains := []
  fullTunnel := p.table.sendAllViaSSH
  mtu := tailnetMTU

def withTailnet (st : Option TailnetNetState) (s : TunnelNetworkSettings) : TunnelNetworkSettings :=
  match st with
  | none => s
  | some st => st.routes.foldl addRoute (st.addrs.foldl addAddress s)

def withPlaceholder (s : TunnelNetworkSettings) : TunnelNetworkSettings :=
  if s.ipv4Addresses = [] then { s with ipv4Addresses := [placeholderTunnelAddr] } else s

def withSSH (p : TailnetPath) (s : TunnelNetworkSettings) : TunnelNetworkSettings :=
  if p.egressOn then
    let routed := (p.table.prefixes .ssh).foldl addRoute s
    if p.table.dnsDomains .ssh ≠ [] then addRoute routed fakeIPPrefix else routed
  else s

/-- Tailnet routes win over direct rules, so a prefix that overlaps one is not excluded. -/
def withFullTunnel (p : TailnetPath) (st : TailnetNetState) (s : TunnelNetworkSettings) : TunnelNetworkSettings :=
  if s.fullTunnel then
    let excluded := p.table.directExclusions.filter fun q => q.addr.is4 && !st.routes.any q.overlaps
    { s with ipv4Routes := [.all4], ipv4Excluded := (excluded.map spelled).foldl addNew s.ipv4Excluded }
  else s

def withCA (p : TailnetPath) (s : TunnelNetworkSettings) : TunnelNetworkSettings :=
  if p.servesCA then addRoute s (.ofAddr caEndpointAddr 32) else s

def withCapture (p : TailnetPath) (s : TunnelNetworkSettings) : TunnelNetworkSettings :=
  if p.capturing then
    { s with
      ipv4Routes := [.all4]
      ipv4Excluded := []
      ipv6Routes := if s.ipv6Addresses = [] then s.ipv6Routes else [.all6] }
  else s

/-- The domains whose queries come to the tunnel; the empty one stands for every query. -/
def dnsMatch (p : TailnetPath) (st : TailnetNetState) (s : TunnelNetworkSettings) : List Bytes :=
  let found := (p.table.dnsDomains .ssh).foldl addNew st.domains
  if s.fullTunnel || p.capturing || st.allDomains || found.contains [] then [[]] else found

def withDNS (p : TailnetPath) (st : TailnetNetState) (s : TunnelNetworkSettings) : TunnelNetworkSettings :=
  if dnsMatch p st s = [] then s
  else { s with dnsServers := [quad100], matchDomains := dnsMatch p st s, searchDomains := st.search }

def networkSettings (p : TailnetPath) : TunnelNetworkSettings :=
  let s := withPlaceholder (withTailnet p.state (initial p))
  match p.state with
  | none => { s with ipv4Routes := [], ipv6Routes := [], fullTunnel := false }
  | some st =>
    if st.addrs = [] then { s with ipv4Routes := [], ipv6Routes := [], fullTunnel := false }
    else withDNS p st (withCapture p (withCA p (withFullTunnel p st (withSSH p s))))

end Building

section Routing
variable {s : TunnelNetworkSettings} {a : Addr} {p : TailnetPath} {st : TailnetNetState}

def Covered (s : TunnelNetworkSettings) (a : Addr) : Prop :=
  ∃ r ∈ if a.unmap.is4 then s.ipv4Routes else s.ipv6Routes, r.contains a.unmap = true

theorem spelled_valid {q : Prefix} (valid : q.isValid = true) : spelled q = q := by
  simp [spelled, valid]

theorem covered_of_whole {t : TunnelNetworkSettings} (covered : Covered s a)
    (whole : t.ipv4Routes = [.all4])
    (six : ∀ word, ∀ r ∈ s.ipv6Routes, r.contains (.v6 word []) = true →
      ∃ q ∈ t.ipv6Routes, q.contains (.v6 word []) = true) : Covered t a := by
  obtain ⟨r, member, inside⟩ := covered
  cases unmapped : a.unmap with
  | zero =>
    rw [unmapped] at inside
    have valid := Prefix.contains_addr_valid inside
    cases valid
  | v4 v =>
    refine ⟨.all4, ?_, ?_⟩
    · simp [unmapped, Addr.is4, whole]
    · rw [unmapped]
      exact Prefix.all4_contains v
  | v6 word zone =>
    simp only [unmapped, Addr.is4, Bool.false_eq_true, if_false] at member
    rw [unmapped] at inside
    cases Prefix.contains_unzoned inside
    obtain ⟨q, place, around⟩ := six word r member inside
    refine ⟨q, ?_, ?_⟩
    · simpa [unmapped, Addr.is4] using place
    · rw [unmapped]
      exact around

theorem add_route_keeps (q : Prefix) (covered : Covered s a) : Covered (addRoute s q) a := by
  obtain ⟨r, member, inside⟩ := covered
  refine ⟨r, ?_, inside⟩
  simp only [addRoute]
  split at member
  · rename_i four
    rw [if_pos four]
    split
    · exact mem_add_new.2 (Or.inl member)
    · exact member
  · rename_i six
    rw [if_neg six]
    split
    · exact member
    · exact mem_add_new.2 (Or.inl member)

theorem add_route_covers {q : Prefix} (inside : q.contains a.unmap = true) : Covered (addRoute s q) a := by
  refine ⟨q, ?_, inside⟩
  simp only [addRoute, Prefix.contains_family inside, spelled_valid (Prefix.contains_valid inside)]
  split
  · exact mem_add_new.2 (Or.inr rfl)
  · exact mem_add_new.2 (Or.inr rfl)

theorem add_routes_keep (qs : List Prefix) (covered : Covered s a) : Covered (qs.foldl addRoute s) a := by
  induction qs generalizing s with
  | nil => exact covered
  | cons q qs ih => exact ih (add_route_keeps q covered)

theorem add_routes_cover {qs : List Prefix} {q : Prefix} (member : q ∈ qs)
    (inside : q.contains a.unmap = true) : Covered (qs.foldl addRoute s) a := by
  induction qs generalizing s with
  | nil => cases member
  | cons first qs ih =>
    rcases List.mem_cons.1 member with rfl | later
    · exact add_routes_keep qs (add_route_covers inside)
    · exact ih later

theorem with_ssh_keeps (p : TailnetPath) (covered : Covered s a) : Covered (withSSH p s) a := by
  simp only [withSSH]
  split
  · split
    · exact add_route_keeps _ (add_routes_keep _ covered)
    · exact add_routes_keep _ covered
  · exact covered

theorem with_full_tunnel_keeps (p : TailnetPath) (st : TailnetNetState) (covered : Covered s a) :
    Covered (withFullTunnel p st s) a := by
  simp only [withFullTunnel]
  split
  · exact covered_of_whole covered rfl fun word r member inside => ⟨r, member, inside⟩
  · exact covered

theorem with_ca_keeps (p : TailnetPath) (covered : Covered s a) : Covered (withCA p s) a := by
  simp only [withCA]
  split
  · exact add_route_keeps _ covered
  · exact covered

theorem with_capture_keeps (p : TailnetPath) (covered : Covered s a) : Covered (withCapture p s) a := by
  simp only [withCapture]
  split
  · refine covered_of_whole covered rfl ?_
    intro word r member inside
    by_cases addressed : s.ipv6Addresses = []
    · exact ⟨r, by simpa [addressed] using member, inside⟩
    · exact ⟨.all6, by simp [addressed], Prefix.all6_contains word⟩
  · exact covered

theorem with_dns_keeps (p : TailnetPath) (st : TailnetNetState) (covered : Covered s a) :
    Covered (withDNS p st s) a := by
  simp only [withDNS]
  split
  · exact covered
  · exact covered

theorem with_placeholder_keeps (covered : Covered s a) : Covered (withPlaceholder s) a := by
  simp only [withPlaceholder]
  split
  · exact covered
  · exact covered

theorem later_stages_keep (p : TailnetPath) (st : TailnetNetState) (covered : Covered (withSSH p s) a) :
    Covered (withDNS p st (withCapture p (withCA p (withFullTunnel p st (withSSH p s))))) a :=
  with_dns_keeps p st (with_capture_keeps p (with_ca_keeps p (with_full_tunnel_keeps p st covered)))

theorem network_settings_logged_in (logged : p.state = some st) (addresses : st.addrs ≠ []) :
    networkSettings p =
      withDNS p st (withCapture p (withCA p (withFullTunnel p st
        (withSSH p (withPlaceholder (withTailnet p.state (initial p))))))) := by
  simp only [networkSettings, logged, if_neg addresses]

theorem tailnet_covered (logged : p.state = some st) (addresses : st.addrs ≠ [])
    (tailnet : routesContain p.state a = true) : Covered (networkSettings p) a := by
  rw [network_settings_logged_in logged addresses]
  apply later_stages_keep
  apply with_ssh_keeps
  apply with_placeholder_keeps
  simp only [routesContain, logged, List.any_eq_true] at tailnet
  obtain ⟨r, member, inside⟩ := tailnet
  simp only [withTailnet, logged]
  exact add_routes_cover member inside

theorem ssh_covered (logged : p.state = some st) (addresses : st.addrs ≠ [])
    (ssh : p.table.matchIP a = .ssh) : Covered (networkSettings p) a := by
  rw [network_settings_logged_in logged addresses]
  apply later_stages_keep
  obtain ⟨r, member, inside⟩ := match_ip_listed RouteAction.noConfusion ssh
  have on := p.egress_on_of_ssh ssh
  simp only [withSSH, on, if_true]
  split
  · exact add_route_keeps _ (add_routes_cover member inside)
  · exact add_routes_cover member inside

theorem fake_covered (logged : p.state = some st) (addresses : st.addrs ≠ []) (on : p.egressOn = true)
    (hosts : p.table.dnsDomains .ssh ≠ []) (inside : fakeIPPrefix.contains a.unmap = true) :
    Covered (networkSettings p) a := by
  rw [network_settings_logged_in logged addresses]
  apply later_stages_keep
  simp only [withSSH, on, if_true, if_pos hosts]
  exact add_route_covers inside

end Routing

section Excluding
variable {s t : TunnelNetworkSettings} {p : TailnetPath} {q : Prefix}

structure Frame (s t : TunnelNetworkSettings) : Prop where
  ipv4Excluded : t.ipv4Excluded = s.ipv4Excluded
  fullTunnel : t.fullTunnel = s.fullTunnel

theorem Frame.refl (s : TunnelNetworkSettings) : Frame s s := ⟨rfl, rfl⟩

theorem Frame.trans {r : TunnelNetworkSettings} (first : Frame s t) (second : Frame t r) : Frame s r :=
  ⟨second.ipv4Excluded.trans first.ipv4Excluded, second.fullTunnel.trans first.fullTunnel⟩

theorem fold_frame {f : TunnelNetworkSettings → Prefix → TunnelNetworkSettings} (step : ∀ s q, Frame s (f s q))
    (qs : List Prefix) (s : TunnelNetworkSettings) : Frame s (qs.foldl f s) := by
  induction qs generalizing s with
  | nil => exact Frame.refl s
  | cons q qs ih => exact (step s q).trans (ih (f s q))

theorem add_route_frame (s : TunnelNetworkSettings) (q : Prefix) : Frame s (addRoute s q) := by
  simp only [addRoute]
  split <;> exact ⟨rfl, rfl⟩

theorem add_address_frame (s : TunnelNetworkSettings) (q : Prefix) : Frame s (addAddress s q) := by
  simp only [addAddress]
  split <;> exact ⟨rfl, rfl⟩

theorem with_tailnet_frame (st : Option TailnetNetState) (s : TunnelNetworkSettings) :
    Frame s (withTailnet st s) := by
  cases st with
  | none => exact Frame.refl s
  | some st => exact (fold_frame add_address_frame _ s).trans (fold_frame add_route_frame _ _)

theorem with_placeholder_frame (s : TunnelNetworkSettings) : Frame s (withPlaceholder s) := by
  simp only [withPlaceholder]
  split <;> exact ⟨rfl, rfl⟩

theorem with_ssh_frame (p : TailnetPath) (s : TunnelNetworkSettings) : Frame s (withSSH p s) := by
  simp only [withSSH]
  split
  · split
    · exact (fold_frame add_route_frame _ s).trans (add_route_frame _ _)
    · exact fold_frame add_route_frame _ s
  · exact Frame.refl s

theorem with_ca_frame (p : TailnetPath) (s : TunnelNetworkSettings) : Frame s (withCA p s) := by
  simp only [withCA]
  split
  · exact add_route_frame s _
  · exact Frame.refl s

theorem with_dns_frame (p : TailnetPath) (st : TailnetNetState) (s : TunnelNetworkSettings) :
    Frame s (withDNS p st s) := by
  simp only [withDNS]
  split <;> exact ⟨rfl, rfl⟩

theorem prepared_frame (p : TailnetPath) :
    Frame (initial p) (withSSH p (withPlaceholder (withTailnet p.state (initial p)))) :=
  (with_tailnet_frame _ _).trans ((with_placeholder_frame _).trans (with_ssh_frame p _))

theorem mem_with_capture (member : q ∈ (withCapture p s).ipv4Excluded) : q ∈ s.ipv4Excluded := by
  simp only [withCapture] at member
  split at member
  · cases member
  · exact member

structure Excludes (p : TailnetPath) (q : Prefix) : Prop where
  full : p.table.sendAllViaSSH = true
  listed : q ∈ p.table.directExclusions
  apart : ∀ st, p.state = some st → ∀ r ∈ st.routes, q.overlaps r = false

theorem mem_with_full_tunnel {st : TailnetNetState} (logged : p.state = some st) (prepared : Frame (initial p) s)
    (member : q ∈ (withFullTunnel p st s).ipv4Excluded) : Excludes p q := by
  have nothing : s.ipv4Excluded = [] := prepared.ipv4Excluded
  simp only [withFullTunnel] at member
  split at member
  · rename_i full
    rw [mem_fold_add_new, nothing, List.mem_map] at member
    rcases member with old | ⟨r, found, rfl⟩
    · cases old
    · obtain ⟨listed, kept⟩ := List.mem_filter.1 found
      rw [spelled_valid (exclusion_valid listed)]
      refine ⟨prepared.fullTunnel.symm.trans full, listed, ?_⟩
      intro other same
      rw [logged] at same
      cases same
      simp only [Bool.and_eq_true, Bool.not_eq_true', List.any_eq_false, Bool.not_eq_true] at kept
      exact kept.2
  · rw [nothing] at member
    cases member

theorem mem_excluded (member : q ∈ (networkSettings p).ipv4Excluded) : Excludes p q := by
  have nothing : (withPlaceholder (withTailnet p.state (initial p))).ipv4Excluded = [] :=
    ((with_tailnet_frame p.state (initial p)).trans (with_placeholder_frame _)).ipv4Excluded
  cases logged : p.state with
  | none =>
    simp only [networkSettings, logged] at member nothing
    rw [nothing] at member
    cases member
  | some st =>
    by_cases addresses : st.addrs = []
    · simp only [networkSettings, logged, if_pos addresses] at member nothing
      rw [nothing] at member
      cases member
    · rw [network_settings_logged_in logged addresses, (with_dns_frame _ _ _).ipv4Excluded] at member
      have member := mem_with_capture member
      rw [(with_ca_frame _ _).ipv4Excluded] at member
      exact mem_with_full_tunnel logged (prepared_frame p) member

theorem excluded_direct {a : Addr} (excludes : Excludes p q) (inside : q.contains a.unmap = true) :
    p.table.matchIP a = .direct ∧ routesContain p.state a = false := by
  refine ⟨exclusion_direct (p.table.gated excludes.full) excludes.listed inside, ?_⟩
  cases logged : p.state with
  | none => rfl
  | some st =>
    simp only [routesContain, List.any_eq_false, Bool.not_eq_true]
    intro r member
    cases within : r.contains a.unmap with
    | false => rfl
    | true =>
      have meets := Prefix.contains_overlaps inside within
      rw [excludes.apart st logged r member] at meets
      cases meets

theorem claimed_unexcluded {a : Addr} (claimed : p.table.matchIP a = .ssh ∨ routesContain p.state a = true)
    (member : q ∈ (networkSettings p).ipv4Excluded) : q.contains a.unmap = false := by
  cases inside : q.contains a.unmap with
  | false => rfl
  | true =>
    obtain ⟨direct, apart⟩ := excluded_direct (mem_excluded member) inside
    rcases claimed with ssh | tailnet
    · rw [ssh] at direct
      cases direct
    · rw [tailnet] at apart
      cases apart

/-- What the OS leaves out of the tunnel is what the tunnel would send out directly. -/
theorem exclusions_agree (p : TailnetPath) (q : Prefix) (v : BitVec 32)
    (member : q ∈ (networkSettings p).ipv4Excluded) (inside : q.contains (.v4 v) = true) :
    p.table.matchIP (.v4 v) = .direct ∧ p.toStack (.v4 v) p.state = true ∧
      fakeIPPrefix.contains (.v4 v) = false ∧
      (∀ st, p.state = some st → ∀ r ∈ st.routes, r.contains (.v4 v) = false) ∧
      p.egressFor (.v4 v) = .direct := by
  have excludes := mem_excluded member
  obtain ⟨direct, apart⟩ := excluded_direct (a := .v4 v) excludes inside
  have real : fakeIPPrefix.contains (.v4 v) = false := by
    cases fake : fakeIPPrefix.contains (.v4 v) with
    | false => rfl
    | true =>
      have meets := Prefix.contains_overlaps inside fake
      rw [exclusion_real excludes.listed] at meets
      cases meets
  refine ⟨direct, ?_, real, ?_, ?_⟩
  · rw [p.to_stack_eq (.v4 v) p.state real]
    simp only [direct, apart, Bool.not_false]
  · intro st logged r place
    simp only [logged, routesContain, List.any_eq_false, Bool.not_eq_true] at apart
    exact apart r place
  · rw [p.egress_for_eq]
    simp only [direct, apart, Bool.false_eq_true, if_false]

theorem home_network_excluded :
    Prefix.v4 0xC0A80000#32 16 ∈ (networkSettings (TailnetPath.officePath false)).ipv4Excluded ∧
      (TailnetPath.officePath false).egressFor (.v4 0xC0A80101#32) = .direct := by
  have member : Prefix.v4 0xC0A80000#32 16 ∈
      (networkSettings (TailnetPath.officePath false)).ipv4Excluded := by
    decide +kernel
  exact ⟨member, (exclusions_agree _ _ 0xC0A80101#32 member (by decide)).2.2.2.2⟩

end Excluding

section Resolving
variable {u : CaseTables} {p : TailnetPath}

theorem host_key_labelled {name : Bytes} (lowered : toLower u name = name) (labels : Labelled name) :
    RouteTable.hostKey u name = name := by
  have dot : text "." = [46] := by decide
  rw [RouteTable.hostKey, lowered, dot, trimSuffix]
  split
  · rename_i ends
    obtain ⟨front, whole⟩ := List.isSuffixOf_iff_suffix.1 ends
    rw [← whole] at labels
    exact absurd (labelled_after_dot labels) not_labelled_nil
  · rfl

theorem dns_match_covers (st : TailnetNetState) (s : TunnelNetworkSettings) {d : Bytes}
    (member : d ∈ p.table.dnsDomains .ssh) : d ∈ dnsMatch p st s ∨ [] ∈ dnsMatch p st s := by
  simp only [dnsMatch]
  split
  · right
    simp
  · left
    exact mem_fold_add_new.2 (Or.inr member)

theorem network_settings_dns {st : TailnetNetState} (logged : p.state = some st) (addresses : st.addrs ≠ []) {d : Bytes}
    (member : d ∈ p.table.dnsDomains .ssh) :
    (d ∈ (networkSettings p).matchDomains ∨ [] ∈ (networkSettings p).matchDomains) ∧
      (networkSettings p).dnsServers ≠ [] := by
  rw [network_settings_logged_in logged addresses]
  generalize withCapture p _ = s
  have found := dns_match_covers st s member
  have matched : dnsMatch p st s ≠ [] := by
    intro empty
    simp [empty] at found
  simp only [withDNS, if_neg matched]
  exact ⟨found, List.cons_ne_nil _ _⟩

/-- SSH and tailnet addresses are routed in their family and never excluded; a name answered with
    a fake address is matched, and the fake range is routed and meets no exclusion. -/
theorem settings_cover (p : TailnetPath) (st : TailnetNetState) (logged : p.state = some st)
    (addresses : st.addrs ≠ []) :
    (∀ a : Addr, p.table.matchIP a = .ssh ∨ routesContain p.state a = true →
      Covered (networkSettings p) a ∧
        ∀ q ∈ (networkSettings p).ipv4Excluded, q.contains a.unmap = false) ∧
    (∀ q : DnsQuestion u, Labelled q.name → (p.dnsRoute (some q) p.state).1 = .fakeAnswer →
      (∃ d ∈ (networkSettings p).matchDomains, d = [] ∨ underDomain d q.name = true) ∧
        (networkSettings p).dnsServers ≠ [] ∧
        (∀ v, fakeIPPrefix.contains (.v4 v) = true →
          ∃ r ∈ (networkSettings p).ipv4Routes, r.contains (.v4 v) = true) ∧
        ∀ e ∈ (networkSettings p).ipv4Excluded, e.overlaps fakeIPPrefix = false) := by
  constructor
  · intro a claimed
    constructor
    · rcases claimed with ssh | tailnet
      · exact ssh_covered logged addresses ssh
      · exact tailnet_covered logged addresses tailnet
    · intro q member
      exact claimed_unexcluded claimed member
  · intro q labels fake
    obtain ⟨r, inRules, hosted, hit, ssh⟩ :=
      match_host_rule RouteAction.noConfusion (TailnetPath.fake_answer_ssh fake)
    rw [host_key_labelled q.lowered labels] at hit
    have listed := mem_dns_domains inRules hosted ssh
    have on : p.egressOn = true := p.carried.symm.trans (effective_ssh_enabled ssh)
    obtain ⟨found, servers⟩ := network_settings_dns logged addresses listed
    refine ⟨?_, servers, ?_, fun e member => exclusion_real (mem_excluded member).listed⟩
    · rcases found with own | every
      · exact ⟨r.dnsDomain, own, rule_domain_covers labels hit⟩
      · exact ⟨[], every, Or.inl rfl⟩
    · intro v inside
      obtain ⟨route, member, around⟩ :=
        fake_covered logged addresses on (List.ne_nil_of_mem listed) (a := .v4 v) inside
      exact ⟨route, member, around⟩

def splitPath : TailnetPath :=
  { newTailnetPath latinTables quadTexts [] { TailnetPath.officeRules with sendAllViaSSH := false } true with
    state := some TailnetPath.officeState }

theorem split_tunnel_covers :
    Covered (networkSettings splitPath) (.v4 0x0A010203#32) ∧
      Covered (networkSettings splitPath) (.v4 0x64400009#32) ∧
      (∃ d ∈ (networkSettings splitPath).matchDomains, d = [] ∨ underDomain d TailnetPath.officeQuery.name = true) ∧
      (networkSettings splitPath).matchDomains = [text "tail.ts.net", text "example.com"] := by
  have cover := settings_cover (u := latinTables) splitPath TailnetPath.officeState rfl (by decide)
  exact ⟨(cover.1 (.v4 0x0A010203#32) (Or.inl (by decide +kernel))).1,
    (cover.1 (.v4 0x64400009#32) (Or.inr (by decide))).1,
    (cover.2 TailnetPath.officeQuery (by decide) (by decide +kernel)).1, by decide +kernel⟩

end Resolving

end NetworkSettings
