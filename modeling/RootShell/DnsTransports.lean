import RootShell.TunnelPath

/-!
Queries to Tailscale's resolver over the two transports. A UDP query is taken out of the packet
stream; a TCP query arrives framed on a connection that the dialer hands to the path's own server.
Both route by name, but each transport has its own test of the resolver's address.
-/
namespace DnsTransports
open ByteLines ByteText AddressPrefixes FakeAddresses TunnelPath

def tailnetDNSInFlight : Nat := 64

/-- The message format as the path uses it: the question of a query, the empty answer to
    a query for HTTPS records, the addresses of an answer. -/
structure DnsMessages (u : CaseTables) where
  parseDNSQuery : Bytes → Option (DnsQuestion u)
  synthesizeHTTPSNoData : Bytes → Option Bytes
  dnsAnswerAddrs : Bytes → List Addr

inductive Carrier where
  | sshTCP
  | directTCP
  | directUDP

inductive Exchanged where
  | answered (resp : Bytes)
  | failed (expired : Bool)

/-- How one query is treated. The last three are fates of a TCP connection that never
    meets the path's own resolver. -/
inductive Treatment where
  | intercepted (answer : Bytes)
  | tailscale
  | fake (a : Option Addr)
  | upstream (viaSSH : Bool)
  | dropped
  | closed
  | placed (place : Placement)
  | refused
  | dialed (d : Dialed)
  deriving DecidableEq

def Treatment.resolved : Treatment → Bool
  | intercepted _ => true
  | tailscale => true
  | fake _ => true
  | upstream _ => true
  | dropped => true
  | _ => false

structure ResolverPath (u : CaseTables) where
  path : TailnetPath
  inFlight : Nat
  blocking : Bool
  servers : List Bytes
  messages : DnsMessages u
  ask : Carrier → Bytes → Bytes → Exchanged

def remembered (p : TailnetPath) (addrs : List Addr) : TailnetPath :=
  { p with directIPs := addrs.foldl RecentIPs.add p.directIPs }

def firstAnswer (ask : Bytes → Exchanged) : List Bytes → Option Bytes
  | [] => none
  | server :: servers =>
    match ask server with
    | .answered resp => some resp
    | .failed expired => if expired then none else firstAnswer ask servers

def framed (query : Bytes) : Bytes :=
  UInt8.ofNat (query.length / 256) :: UInt8.ofNat (query.length % 256) :: query

def nextQuery : Bytes → Option Bytes
  | hi :: lo :: rest =>
    let length := hi.toNat * 256 + lo.toNat
    if rest.length < length then none else some (rest.take length)
  | _ => none

def dialsIPv6 (p : TailnetPath) (ip : Addr) : Bool :=
  if (p.fake.host ip).isSome then false else p.egressFor ip != .ssh

namespace ResolverPath
variable {u : CaseTables} (r : ResolverPath u)

section Resolving

def interceptDNSQuery (query : Bytes) : Option Bytes :=
  if r.blocking then r.messages.synthesizeHTTPSNoData query else none

/-- SSH carries only TCP; a direct exchange keeps the client's transport. -/
def exchangeDNS (query : Bytes) (viaSSH overTCP : Bool) : Option Bytes :=
  let carrier := if viaSSH then .sshTCP else if overTCP then .directTCP else .directUDP
  firstAnswer (r.ask carrier · query) r.servers

def recordAnswer (remember : Bool) (resp : Option Bytes) : TailnetPath :=
  match resp with
  | some resp => if remember then remembered r.path (r.messages.dnsAnswerAddrs resp) else r.path
  | none => r.path

def answerFake (q : Option (DnsQuestion u)) : Treatment × TailnetPath :=
  match q with
  | some q => (.fake (r.path.fakeAnswer q).1, (r.path.fakeAnswer q).2)
  | none => (.fake none, r.path)

/-- Without a free slot the query is dropped: the client retries. -/
def forwardDNS (query : Bytes) (viaSSH remember : Bool) : Treatment × TailnetPath :=
  if r.inFlight < tailnetDNSInFlight then
    (.upstream viaSSH, r.recordAnswer remember (r.exchangeDNS query viaSSH false))
  else (.dropped, r.path)

def handleDNS (query : Bytes) : Treatment × TailnetPath :=
  match (if r.path.capturing then r.interceptDNSQuery query else none) with
  | some answer => (.intercepted answer, r.path)
  | none =>
    let q := r.messages.parseDNSQuery query
    match r.path.dnsRoute q r.path.state with
    | (.toTailscale, _) => (.tailscale, r.path)
    | (.fakeAnswer, _) => r.answerFake q
    | (.viaSSH, _) => r.forwardDNS query true false
    | (.direct, remember) => r.forwardDNS query false remember

def resolveDNS (query : Bytes) : Treatment × TailnetPath :=
  match (if r.path.capturing then r.interceptDNSQuery query else none) with
  | some answer => (.intercepted answer, r.path)
  | none =>
    let q := r.messages.parseDNSQuery query
    match r.path.dnsRoute q r.path.state with
    | (.fakeAnswer, _) => r.answerFake q
    | (.toTailscale, _) => (.tailscale, r.path)
    | (.viaSSH, remember) => (.upstream true, r.recordAnswer remember (r.exchangeDNS query true true))
    | (.direct, remember) => (.upstream false, r.recordAnswer remember (r.exchangeDNS query false true))

def serveDNSOverTCP (stream : Bytes) : Treatment × TailnetPath :=
  match nextQuery stream with
  | some query => r.resolveDNS query
  | none => (.closed, r.path)

end Resolving

section Transports

def udpQuery (dst : Addr) (query : Bytes) : Treatment × TailnetPath :=
  match r.path.injectPacket ⟨dst, ipProtoUDP, 53⟩ with
  | .dns => r.handleDNS query
  | other => (.placed other, r.path)

/-- A connection the netstack terminated: an IPv6 flow that would need SSH is refused, one
    dialed on the tailnet meets Tailscale's resolver. -/
def dialQuery (dst : Addr) (stream : Bytes) : Treatment × TailnetPath :=
  if !dst.is4 && !dialsIPv6 r.path dst then (.refused, r.path)
  else
    match r.path.dialTCP dst 53 with
    | .dnsServer => r.serveDNSOverTCP stream
    | .tailnet _ _ _ => (.tailscale, r.path)
    | other => (.dialed other, r.path)

def tcpQuery (dst : Addr) (stream : Bytes) : Treatment × TailnetPath :=
  match r.path.injectPacket ⟨dst, ipProtoTCP, 53⟩ with
  | .netstack => r.dialQuery dst stream
  | .tailscale => (.tailscale, r.path)
  | other => (.placed other, r.path)

def Alike (dst : Addr) (query : Bytes) : Prop :=
  (r.udpQuery dst query).1 = (r.tcpQuery dst (framed query)).1 ∧
    ((∀ viaSSH, r.exchangeDNS query viaSSH false = r.exchangeDNS query viaSSH true) →
      (r.udpQuery dst query).2 = (r.tcpQuery dst (framed query)).2)

end Transports

section Conditions

def Blocked (query : Bytes) : Prop :=
  r.path.capturing = true ∧ r.blocking = true ∧ (r.messages.synthesizeHTTPSNoData query).isSome = true

/-- The query belongs to Tailscale: it has no question, its name is on the tailnet, or no
    rule claims the name and the tailnet takes them all. -/
def TailnetOwned (query : Bytes) : Prop :=
  match r.messages.parseDNSQuery query with
  | none => True
  | some q => isTailnetName r.path.state q.name = true ∨
      (r.path.table.matchHost u q.name = .none ∧ (r.path.state.map (·.allDomains)).getD false = true)

def Claimed (query : Bytes) : Prop :=
  match r.messages.parseDNSQuery query with
  | none => False
  | some q => isTailnetName r.path.state q.name = false ∧ r.path.table.matchHost u q.name = .ssh

def SourceV6 (st : Option TailnetNetState) : Prop :=
  ∃ s a, st = some s ∧ a ∈ s.addrs.map (·.addr) ∧ a.isValid = true ∧ a.is4 = false

def ReachesTailscale : Prop :=
  routesContain r.path.state quad100v6 = true ∧ r.path.table.matchIP quad100v6 ≠ .ssh ∧
    (r.path.capturing = true → SourceV6 r.path.state)

/-- The IPv4 resolver needs a free slot for a query that goes upstream. The IPv6 one is
    served over UDP only, so it needs a query that is Tailscale's anyway. -/
def Covered (dst : Addr) (query : Bytes) : Prop :=
  if dst = quad100 then
    r.inFlight < tailnetDNSInFlight ∨ r.Blocked query ∨ r.TailnetOwned query ∨ r.Claimed query
  else ¬ r.Blocked query ∧ r.TailnetOwned query ∧ r.ReachesTailscale

end Conditions

section Agreement

variable {query : Bytes}

theorem next_query_framed (short : query.length < 65536) : nextQuery (framed query) = some query := by
  have high : query.length / 256 < 256 := by omega
  have length : query.length / 256 % 256 * 256 + query.length % 256 = query.length := by omega
  simp [framed, nextQuery, length]

theorem route_tailnet_owned (owned : r.TailnetOwned query) :
    r.path.dnsRoute (r.messages.parseDNSQuery query) r.path.state = (.toTailscale, false) := by
  unfold TailnetOwned at owned
  cases parsed : r.messages.parseDNSQuery query with
  | none => rfl
  | some q =>
    rw [parsed] at owned
    rcases owned with tailnet | ⟨unclaimed, every⟩
    · simp [TailnetPath.dnsRoute, tailnet]
    · by_cases tailnet : isTailnetName r.path.state q.name = true
      · simp [TailnetPath.dnsRoute, tailnet]
      · simp [TailnetPath.dnsRoute, tailnet, unclaimed, every]

theorem route_claimed (claimed : r.Claimed query) :
    r.path.dnsRoute (r.messages.parseDNSQuery query) r.path.state = (.fakeAnswer, false) := by
  unfold Claimed at claimed
  cases parsed : r.messages.parseDNSQuery query with
  | none => simp [parsed] at claimed
  | some q =>
    rw [parsed] at claimed
    simp [TailnetPath.dnsRoute, claimed.1, claimed.2]

theorem route_upstream (foreign : ¬ r.TailnetOwned query) (unclaimed : ¬ r.Claimed query) :
    r.path.dnsRoute (r.messages.parseDNSQuery query) r.path.state = (.viaSSH, false) ∨
      ∃ remember, r.path.dnsRoute (r.messages.parseDNSQuery query) r.path.state = (.direct, remember) := by
  unfold TailnetOwned at foreign
  unfold Claimed at unclaimed
  cases parsed : r.messages.parseDNSQuery query with
  | none => simp [parsed] at foreign
  | some q =>
    simp only [parsed, not_or, not_and, Bool.not_eq_true] at foreign unclaimed
    simp only [TailnetPath.dnsRoute, foreign.1, Bool.false_eq_true, if_false]
    cases verdict : r.path.table.matchHost u q.name with
    | ssh => exact absurd verdict (unclaimed foreign.1)
    | direct => exact Or.inr ⟨_, rfl⟩
    | none =>
      simp only [foreign.2 verdict, Bool.false_eq_true, if_false]
      split
      · exact Or.inl rfl
      · exact Or.inr ⟨_, rfl⟩

theorem intercept_eq_none_iff (query : Bytes) :
    (if r.path.capturing then r.interceptDNSQuery query else none) = none ↔ ¬ r.Blocked query := by
  unfold Blocked interceptDNSQuery
  cases r.path.capturing with
  | false => simp
  | true =>
    cases r.blocking with
    | false => simp
    | true => simp

theorem settled_alike (settled : r.Blocked query ∨ r.TailnetOwned query ∨ r.Claimed query) :
    r.handleDNS query = r.resolveDNS query := by
  cases caught : (if r.path.capturing then r.interceptDNSQuery query else none) with
  | some answer => simp only [handleDNS, resolveDNS, caught]
  | none =>
    rcases settled with blocked | owned | claimed
    · exact absurd blocked ((r.intercept_eq_none_iff query).1 caught)
    · simp only [handleDNS, resolveDNS, caught, r.route_tailnet_owned owned]
    · simp only [handleDNS, resolveDNS, caught, r.route_claimed claimed]

theorem upstream_pair (unblocked : ¬ r.Blocked query) (foreign : ¬ r.TailnetOwned query)
    (unclaimed : ¬ r.Claimed query) :
    ∃ viaSSH remember, r.handleDNS query = r.forwardDNS query viaSSH remember ∧
      r.resolveDNS query = (.upstream viaSSH, r.recordAnswer remember (r.exchangeDNS query viaSSH true)) := by
  have passed := (r.intercept_eq_none_iff query).2 unblocked
  rcases r.route_upstream foreign unclaimed with ssh | ⟨remember, direct⟩
  · exact ⟨true, false, by simp only [handleDNS, passed, ssh], by simp only [resolveDNS, passed, ssh]⟩
  · exact ⟨false, remember, by simp only [handleDNS, passed, direct], by simp only [resolveDNS, passed, direct]⟩

theorem forward_resolved (query : Bytes) (viaSSH remember : Bool) :
    (r.forwardDNS query viaSSH remember).1.resolved = true ∧
      (r.forwardDNS query viaSSH remember).1 ≠ .tailscale := by
  unfold forwardDNS
  split
  · exact ⟨rfl, by simp⟩
  · exact ⟨rfl, by simp⟩

theorem answer_fake_resolved (q : Option (DnsQuestion u)) :
    (r.answerFake q).1.resolved = true ∧ (r.answerFake q).1 ≠ .tailscale := by
  cases q with
  | none => exact ⟨rfl, by simp [answerFake]⟩
  | some q => exact ⟨rfl, by simp [answerFake]⟩

theorem handle_resolved (query : Bytes) :
    (r.handleDNS query).1.resolved = true ∧
      ((r.handleDNS query).1 = .tailscale ↔ ¬ r.Blocked query ∧ r.TailnetOwned query) := by
  cases caught : (if r.path.capturing then r.interceptDNSQuery query else none) with
  | some answer =>
    have blocked : r.Blocked query := by
      by_contra unblocked
      rw [(r.intercept_eq_none_iff query).2 unblocked] at caught
      cases caught
    simp [handleDNS, caught, blocked, Treatment.resolved]
  | none =>
    have unblocked := (r.intercept_eq_none_iff query).1 caught
    by_cases owned : r.TailnetOwned query
    · simp [handleDNS, caught, r.route_tailnet_owned owned, unblocked, owned, Treatment.resolved]
    · by_cases claimed : r.Claimed query
      · have fake := r.answer_fake_resolved (r.messages.parseDNSQuery query)
        simp [handleDNS, caught, r.route_claimed claimed, owned, fake]
      · obtain ⟨viaSSH, remember, forwarded, -⟩ := r.upstream_pair unblocked owned claimed
        have resolved := r.forward_resolved query viaSSH remember
        simp [forwarded, owned, resolved]

theorem handle_tailscale (tailscale : (r.handleDNS query).1 = .tailscale) : (r.handleDNS query).2 = r.path := by
  obtain ⟨unblocked, owned⟩ := (r.handle_resolved query).2.1 tailscale
  simp only [handleDNS, (r.intercept_eq_none_iff query).2 unblocked, r.route_tailnet_owned owned]

theorem udp_query_eq {dst : Addr} (resolver : dst = quad100 ∨ dst = quad100v6) (query : Bytes) :
    r.udpQuery dst query = r.handleDNS query := by
  unfold udpQuery TailnetPath.injectPacket
  rw [if_pos ⟨rfl, rfl, resolver⟩]

theorem tcp_query_v4 (on : r.path.egressOn = true) (stream : Bytes) :
    r.tcpQuery quad100 stream = r.serveDNSOverTCP stream := by
  have placed : r.path.injectPacket ⟨quad100, ipProtoTCP, 53⟩ = .netstack := by
    simp [TailnetPath.injectPacket, on, ipProtoTCP, ipProtoUDP]
  unfold tcpQuery
  rw [placed]
  simp [dialQuery, TailnetPath.dialTCP, quad100, Addr.is4]

theorem to_stack_v6 (p : TailnetPath) :
    p.toStack quad100v6 p.state =
      match p.table.matchIP quad100v6 with
      | .ssh => true
      | .direct => !routesContain p.state quad100v6
      | .none => false := by
  rw [p.to_stack_eq quad100v6 p.state rfl]
  cases p.table.matchIP quad100v6 with
  | ssh => rfl
  | direct => rfl
  | none => simp [quad100v6, Addr.unmap, Addr.is4]

theorem capture_to_stack_v6 (p : TailnetPath) :
    p.captureToStack ⟨quad100v6, ipProtoTCP, 53⟩ p.state = p.capturing := by
  have apart : quad100v6 ≠ caEndpointAddr := by decide
  simp only [TailnetPath.captureToStack, apart, false_and, if_false]
  cases p.capturing with
  | false => rfl
  | true => simp

theorem inject_v6 (p : TailnetPath) :
    p.injectPacket ⟨quad100v6, ipProtoTCP, 53⟩ =
      if p.toStack quad100v6 p.state || p.capturing then .netstack
      else if routesContain p.state quad100v6 then .tailscale
      else .unrouted := by
  have tcp : ipProtoTCP ≠ ipProtoUDP := by decide
  have apart : quad100v6 ≠ quad100 := by decide
  simp only [TailnetPath.injectPacket, tcp, apart, false_and, and_false, if_false, capture_to_stack_v6]

theorem dial_query_v6 (stream : Bytes) :
    r.dialQuery quad100v6 stream =
      match r.path.egressFor quad100v6 with
      | .ssh => (.refused, r.path)
      | .direct => (.dialed (.direct quad100v6 53), r.path)
      | .tailnet =>
        match r.path.dialTailnet quad100v6 53 with
        | .dnsServer => r.serveDNSOverTCP stream
        | .tailnet _ _ _ => (.tailscale, r.path)
        | other => (.dialed other, r.path) := by
  have apart : quad100v6 ≠ quad100 := by decide
  have unnamed : r.path.fake.host quad100v6 = none := rfl
  have six : quad100v6.is4 = false := rfl
  simp only [dialQuery, six, dialsIPv6, unnamed, TailnetPath.dialTCP, apart, false_and, if_false]
  cases r.path.egressFor quad100v6 with
  | ssh => rfl
  | direct => rfl
  | tailnet => rfl

theorem dial_tailnet_v6 (p : TailnetPath) :
    (∃ src, p.dialTailnet quad100v6 53 = .tailnet src quad100v6 53 ∧ SourceV6 p.state) ∨
      (p.dialTailnet quad100v6 53 = .refused (.noTailnetAddress quad100v6 53) ∧ ¬ SourceV6 p.state) := by
  unfold TailnetPath.dialTailnet SourceV6
  cases p.state with
  | none => exact Or.inr ⟨rfl, by simp⟩
  | some st =>
    dsimp only
    cases found : (st.addrs.map (·.addr)).find? fun a => a.isValid && a.is4 == quad100v6.is4 with
    | some src =>
      have fits := List.find?_some found
      simp only [Bool.and_eq_true, beq_iff_eq] at fits
      exact Or.inl ⟨src, rfl, st, src, rfl, List.mem_of_find?_eq_some found, fits.1, fits.2⟩
    | none =>
      refine Or.inr ⟨rfl, ?_⟩
      rintro ⟨_, a, same, member, valid, six⟩
      cases same
      have unfit := List.find?_eq_none.1 found a member
      have family : quad100v6.is4 = false := rfl
      simp [valid, six, family] at unfit

theorem routed_v6 {p : TailnetPath} (plain : p.table.matchIP quad100v6 ≠ .ssh)
    (tailnet : routesContain p.state quad100v6 = true) :
    p.toStack quad100v6 p.state = false ∧ p.egressFor quad100v6 = .tailnet := by
  rw [to_stack_v6, p.egress_for_eq]
  cases verdict : p.table.matchIP quad100v6 with
  | ssh => exact absurd verdict plain
  | direct => simp [tailnet]
  | none => simp [tailnet]

theorem unrouted_v6 {p : TailnetPath} (tailnet : routesContain p.state quad100v6 = false) :
    p.egressFor quad100v6 ≠ .tailnet := by
  rw [p.egress_for_eq]
  cases p.table.matchIP quad100v6 with
  | ssh => simp
  | direct => simp [tailnet]
  | none =>
    simp only [tailnet, Bool.false_eq_true, if_false]
    split <;> simp

theorem tcp_query_v6 (stream : Bytes) :
    (r.tcpQuery quad100v6 stream = (.tailscale, r.path) ∧ r.ReachesTailscale) ∨
      ((r.tcpQuery quad100v6 stream).1.resolved = false ∧ ¬ r.ReachesTailscale) := by
  unfold tcpQuery ReachesTailscale
  rw [inject_v6, dial_query_v6]
  by_cases ssh : r.path.table.matchIP quad100v6 = .ssh
  · simp [to_stack_v6, r.path.egress_for_eq, ssh, Treatment.resolved]
  · cases tailnet : routesContain r.path.state quad100v6 with
    | true =>
      obtain ⟨raw, egress⟩ := routed_v6 ssh tailnet
      rw [raw, egress]
      cases capturing : r.path.capturing with
      | false => exact Or.inl ⟨rfl, by simp [ssh]⟩
      | true =>
        rcases dial_tailnet_v6 r.path with ⟨src, dialed, source⟩ | ⟨dialed, unsourced⟩
        · exact Or.inl ⟨by simp [dialed], by simp [ssh, source]⟩
        · exact Or.inr ⟨by simp [dialed, Treatment.resolved], by simp [unsourced]⟩
    | false =>
      refine Or.inr ⟨?_, by simp⟩
      cases r.path.toStack quad100v6 r.path.state || r.path.capturing with
      | false => rfl
      | true =>
        cases egress : r.path.egressFor quad100v6 with
        | ssh => rfl
        | direct => rfl
        | tailnet => exact absurd egress (unrouted_v6 tailnet)

theorem alike_v4_iff (on : r.path.egressOn = true) (short : query.length < 65536) :
    r.Alike quad100 query ↔ r.inFlight < tailnetDNSInFlight ∨
      r.Blocked query ∨ r.TailnetOwned query ∨ r.Claimed query := by
  unfold Alike
  rw [r.udp_query_eq (Or.inl rfl), r.tcp_query_v4 on, serveDNSOverTCP, next_query_framed short]
  dsimp only
  by_cases settled : r.Blocked query ∨ r.TailnetOwned query ∨ r.Claimed query
  · simp [r.settled_alike settled, settled]
  · simp only [settled, or_false]
    rw [not_or, not_or] at settled
    obtain ⟨viaSSH, remember, udp, tcp⟩ := r.upstream_pair settled.1 settled.2.1 settled.2.2
    rw [udp, tcp, forwardDNS]
    by_cases free : r.inFlight < tailnetDNSInFlight
    · simp only [free, if_true, iff_true, true_and]
      intro same
      rw [same viaSSH]
    · simp [free]

theorem alike_v6_iff (query : Bytes) :
    r.Alike quad100v6 query ↔ ¬ r.Blocked query ∧ r.TailnetOwned query ∧ r.ReachesTailscale := by
  unfold Alike
  rw [r.udp_query_eq (Or.inr rfl), ← and_assoc, ← (r.handle_resolved query).2]
  rcases r.tcp_query_v6 (framed query) with ⟨tcp, reaches⟩ | ⟨elsewhere, strays⟩
  · simp only [tcp, reaches, and_true]
    exact ⟨fun alike => alike.1, fun tailscale => ⟨tailscale, fun _ => r.handle_tailscale tailscale⟩⟩
  · simp only [strays, and_false, iff_false, not_and]
    intro same
    rw [← same, (r.handle_resolved query).1] at elsewhere
    cases elsewhere

theorem transports_alike_iff (on : r.path.egressOn = true) {dst : Addr} (resolver : dst = quad100 ∨ dst = quad100v6)
    {query : Bytes} (short : query.length < 65536) : r.Alike dst query ↔ r.Covered dst query := by
  rcases resolver with rfl | rfl
  · simpa only [Covered, if_true] using r.alike_v4_iff on short
  · have apart : quad100v6 ≠ quad100 := by decide
    simpa only [Covered, apart, if_false] using r.alike_v6_iff query

end Agreement

section Office

def namedMessages : DnsMessages latinTables where
  parseDNSQuery message := if message = text "www.example.com" then some TailnetPath.officeQuery else none
  synthesizeHTTPSNoData _ := none
  dnsAnswerAddrs _ := []

def dualState : TailnetNetState where
  addrs := [.ofAddr (.v4 0x64400007#32) 32, .ofAddr (.v6 0xfd7a115ca1e000000000000000000007#128 []) 128]
  routes := [.ofAddr (.v4 0x64400000#32) 10, .ofAddr (.v6 0xfd7a115ca1e000000000000000000000#128 []) 48]
  domains := [text "tail.ts.net"]
  search := []
  allDomains := false

def officeResolver : ResolverPath latinTables where
  path := { TailnetPath.officePath false with state := some dualState }
  inFlight := 0
  blocking := false
  servers := [text "1.1.1.1:53"]
  messages := namedMessages
  ask _ _ _ := .failed true

theorem office_v4_alike : officeResolver.Alike quad100 (text "www.example.com") :=
  (officeResolver.transports_alike_iff rfl (Or.inl rfl) (by decide)).2
    (by rw [Covered, if_pos rfl]; exact Or.inl (by decide))

/-- A name of an SSH rule gets its fake address over UDP and Tailscale's answer over TCP. -/
theorem office_v6_apart :
    officeResolver.path.egressOn = true ∧
      (officeResolver.udpQuery quad100v6 (text "www.example.com")).1 = .fake (some (.v4 0xC6120002#32)) ∧
      (officeResolver.tcpQuery quad100v6 (framed (text "www.example.com"))).1 = .tailscale ∧
      ¬ officeResolver.Alike quad100v6 (text "www.example.com") := by
  have udp : (officeResolver.udpQuery quad100v6 (text "www.example.com")).1 = .fake (some (.v4 0xC6120002#32)) := by
    decide +kernel
  have tcp : (officeResolver.tcpQuery quad100v6 (framed (text "www.example.com"))).1 = .tailscale := by
    decide +kernel
  refine ⟨rfl, udp, tcp, fun alike => ?_⟩
  have same := alike.1
  rw [udp, tcp] at same
  cases same

end Office

end ResolverPath

end DnsTransports
