import RootShell.FakeAddresses

/-!
The packet path of Tailscale mode. The demux sends a packet to the netstack, to Tailscale or
nowhere; the dialer picks the egress for a terminated flow; a query to Tailscale's resolver is
routed by name. Each has its own chain of precedence over the same table, tailnet state and
address memories.
-/
namespace TunnelPath
open ByteLines ByteText AddressPrefixes RoutingRules FakeAddresses

def quad100 : Addr := .v4 0x64646464#32

def quad100v6 : Addr := .v6 0xfd7a115ca1e000000000000000000053#128 []

def caEndpointAddr : Addr := .v4 0x0A000001#32

def ipProtoTCP : UInt8 := 6

def ipProtoUDP : UInt8 := 17

def directIPMemory : Nat := 4096

structure TailnetNetState where
  addrs : List Prefix
  routes : List Prefix
  domains : List Bytes
  search : List Bytes
  allDomains : Bool

def routesContain (st : Option TailnetNetState) (ip : Addr) : Bool :=
  match st with
  | none => false
  | some s => s.routes.any fun p => p.contains ip.unmap

def isTailnetName (st : Option TailnetNetState) (name : Bytes) : Bool :=
  match st with
  | none => false
  | some s => s.domains.any fun d => d == [] || underDomain d name

/-- A live SSH egress; a SOCKS proxy has no datagrams. -/
structure EgressDialers where
  udp : Bool

structure TailnetPath where
  table : RouteTable
  fake : FakeIPPool
  directIPs : RecentIPs
  egressOn : Bool
  egress : Option EgressDialers
  state : Option TailnetNetState
  capturing : Bool
  servesCA : Bool
  carried : table.sshEnabled = egressOn

def newTailnetPath (u : CaseTables) (net : AddressTexts) (socks5Address : Bytes)
    (routing : RoutingConfigJSON) (tsshEgress : Bool) : TailnetPath where
  table := compileRouteTable u net routing (socks5Address != [] || tsshEgress)
  fake := newFakeIPPool
  directIPs := newRecentIPs directIPMemory (by decide)
  egressOn := socks5Address != [] || tsshEgress
  egress := if socks5Address = [] then none else some { udp := false }
  state := none
  capturing := false
  servesCA := false
  carried := rfl

section Outcomes

structure IpPacketInfo where
  dst : Addr
  proto : UInt8
  dstPort : UInt16

inductive Placement where
  | dns
  | netstack
  | tailscale
  | unrouted
  deriving DecidableEq

inductive EgressKind where
  | direct
  | ssh
  | tailnet
  deriving DecidableEq

inductive Target where
  | name (host : Bytes) (port : UInt16)
  | addr (ip : Addr) (port : UInt16)
  deriving DecidableEq

inductive Refusal where
  | noEgress (name : Bytes)
  | egressNotReady
  | noUDPOverSSH (target : Target)
  | tailnetUDP (ip : Addr) (port : UInt16)
  | noTailnetAddress (ip : Addr) (port : UInt16)
  deriving DecidableEq

inductive Dialed where
  | dnsServer
  | ssh (target : Target)
  | tailnet (src dst : Addr) (port : UInt16)
  | direct (ip : Addr) (port : UInt16)
  | refused (reason : Refusal)
  deriving DecidableEq

def Dialed.contained : Dialed → Bool
  | ssh _ => true
  | refused _ => true
  | _ => false

inductive DnsDestination where
  | toTailscale
  | fakeAnswer
  | viaSSH
  | direct
  deriving DecidableEq

structure DnsQuestion (u : CaseTables) where
  name : Bytes
  isA : Bool
  lowered : toLower u name = name

end Outcomes

namespace TailnetPath

section Demux

def toStack (p : TailnetPath) (dst : Addr) (st : Option TailnetNetState) : Bool :=
  if p.egressOn && fakeIPPrefix.contains dst.unmap then true
  else
    match p.table.matchIP dst.unmap with
    | .ssh => true
    | .direct => !routesContain st dst.unmap
    | .none => if routesContain st dst.unmap then false else p.table.sendAllViaSSH && dst.unmap.is4

def captureToStack (p : TailnetPath) (info : IpPacketInfo) (st : Option TailnetNetState) : Bool :=
  if info.dst = caEndpointAddr ∧ info.proto = ipProtoTCP ∧ info.dstPort = 80 ∧ p.servesCA = true then true
  else if !p.capturing then false
  else if routesContain st info.dst then info.proto == ipProtoTCP
  else true

def injectPacket (p : TailnetPath) (info : IpPacketInfo) : Placement :=
  if info.proto = ipProtoUDP ∧ info.dstPort = 53 ∧ (info.dst = quad100 ∨ info.dst = quad100v6) then .dns
  else if p.egressOn = true ∧ info.proto = ipProtoTCP ∧ info.dstPort = 53 ∧ info.dst = quad100 then
    .netstack
  else if p.toStack info.dst p.state || p.captureToStack info p.state then .netstack
  else if routesContain p.state info.dst then .tailscale
  else .unrouted

end Demux

section Dialing

def viaSSH (p : TailnetPath) (ip : Addr) : Bool :=
  if !p.egressOn then false
  else
    match p.table.matchIP ip with
    | .ssh => true
    | .direct => false
    | .none => p.table.sendAllViaSSH && !p.directIPs.contains ip

def egressFor (p : TailnetPath) (ip : Addr) : EgressKind :=
  if p.egressOn = true ∧ p.table.matchIP ip = .ssh then .ssh
  else if routesContain p.state ip then .tailnet
  else if p.viaSSH ip then .ssh
  else .direct

def egressTCP (p : TailnetPath) (target : Target) : Dialed :=
  match p.egress with
  | some _ => .ssh target
  | none => .refused .egressNotReady

def egressUDP (p : TailnetPath) (target : Target) : Dialed :=
  match p.egress with
  | some e => if e.udp then .ssh target else .refused (.noUDPOverSSH target)
  | none => .refused (.noUDPOverSSH target)

def dialTailnet (p : TailnetPath) (ip : Addr) (port : UInt16) : Dialed :=
  match p.state with
  | none => .refused (.noTailnetAddress ip port)
  | some st =>
    match (st.addrs.map (·.addr)).find? fun a => a.isValid && a.is4 == ip.is4 with
    | some src => .tailnet src ip port
    | none => .refused (.noTailnetAddress ip port)

def dialTCP (p : TailnetPath) (ip : Addr) (port : UInt16) : Dialed :=
  if ip = quad100 ∧ port = 53 then .dnsServer
  else
    match p.fake.host ip with
    | some name => if p.egressOn then p.egressTCP (.name name port) else .refused (.noEgress name)
    | none =>
      match p.egressFor ip with
      | .ssh => p.egressTCP (.addr ip port)
      | .tailnet => p.dialTailnet ip port
      | .direct => .direct ip port

def dialUDP (p : TailnetPath) (ip : Addr) (port : UInt16) : Dialed :=
  match p.fake.host ip with
  | some name => p.egressUDP (.name name port)
  | none =>
    match p.egressFor ip with
    | .ssh => p.egressUDP (.addr ip port)
    | .tailnet => .refused (.tailnetUDP ip port)
    | .direct => .direct ip port

end Dialing

section Queries
variable {u : CaseTables}

/-- The destination, and whether the answers become direct destinations. No question
    stands for a message that does not parse. -/
def dnsRoute (p : TailnetPath) (q : Option (DnsQuestion u)) (st : Option TailnetNetState) : DnsDestination × Bool :=
  match q with
  | none => (.toTailscale, false)
  | some q =>
    if isTailnetName st q.name then (.toTailscale, false)
    else
      match p.table.matchHost u q.name with
      | .ssh => (.fakeAnswer, false)
      | .direct => (.direct, p.table.sendAllViaSSH)
      | .none =>
        if (st.map (·.allDomains)).getD false then (.toTailscale, false)
        else if p.table.sendAllViaSSH then (.viaSSH, false)
        else (.direct, false)

end Queries

section Agreement
variable (p : TailnetPath)

theorem routes_contain_unmap (st : Option TailnetNetState) (ip : Addr) :
    routesContain st ip.unmap = routesContain st ip := by
  cases st with
  | none => rfl
  | some s => simp only [routesContain, Addr.unmap_unmap]

theorem egress_on_of_send_all (full : p.table.sendAllViaSSH = true) : p.egressOn = true := by
  rw [← p.carried]
  exact p.table.gated full

theorem egress_on_of_ssh {ip : Addr} (ssh : p.table.matchIP ip = .ssh) : p.egressOn = true := by
  rw [← p.carried]
  exact match_ip_ssh_enabled ssh

theorem to_stack_eq (a : Addr) (st : Option TailnetNetState) (outside : fakeIPPrefix.contains a.unmap = false) :
    p.toStack a st =
      match p.table.matchIP a with
      | .ssh => true
      | .direct => !routesContain st a
      | .none => !routesContain st a && p.table.sendAllViaSSH && a.unmap.is4 := by
  simp only [toStack, outside, Bool.and_false, Bool.false_eq_true, if_false, match_ip_unmap,
    routes_contain_unmap]
  cases p.table.matchIP a with
  | ssh => rfl
  | direct => rfl
  | none => cases routesContain st a <;> simp

theorem egress_for_eq (a : Addr) :
    p.egressFor a =
      match p.table.matchIP a with
      | .ssh => .ssh
      | .direct => if routesContain p.state a then .tailnet else .direct
      | .none =>
        if routesContain p.state a then .tailnet
        else if p.table.sendAllViaSSH && !p.directIPs.contains a then .ssh
        else .direct := by
  cases verdict : p.table.matchIP a with
  | ssh => simp [egressFor, verdict, p.egress_on_of_ssh verdict]
  | direct => simp [egressFor, viaSSH, verdict]
  | none =>
    cases full : p.table.sendAllViaSSH with
    | true => simp [egressFor, viaSSH, verdict, full, p.egress_on_of_send_all full]
    | false => simp [egressFor, viaSSH, verdict, full]

/-- A flow the demux terminates never goes back to the tailnet, and leaves through SSH for an SSH
    rule or by the full-tunnel default. A tailnet flow terminated only for capture is dialed on
    the tailnet. -/
theorem demux_dialer_agree :
    (∀ a, fakeIPPrefix.contains a.unmap = false → p.toStack a p.state = true →
      p.egressFor a ≠ .tailnet ∧
      (p.egressFor a = .ssh ↔ p.table.matchIP a = .ssh ∨
        (p.table.matchIP a = .none ∧ p.table.sendAllViaSSH = true ∧
          p.directIPs.contains a = false)) ∧
      (p.egressFor a ≠ .ssh → p.egressFor a = .direct)) ∧
    (∀ info : IpPacketInfo, p.captureToStack info p.state = true → info.proto = ipProtoTCP →
      routesContain p.state info.dst = true → p.toStack info.dst p.state = false →
      p.egressFor info.dst = .tailnet) := by
  constructor
  · intro a outside admitted
    rw [p.to_stack_eq a p.state outside] at admitted
    rw [p.egress_for_eq a]
    cases verdict : p.table.matchIP a with
    | ssh => simp
    | direct =>
      simp only [verdict, Bool.not_eq_true'] at admitted
      simp [admitted]
    | none =>
      simp only [verdict, Bool.and_eq_true, Bool.not_eq_true'] at admitted
      simp only [admitted.1.1, admitted.1.2, Bool.false_eq_true, if_false, Bool.true_and]
      cases p.directIPs.contains a <;> simp
  · intro info _ _ tailnet refused
    rw [p.egress_for_eq]
    cases verdict : p.table.matchIP info.dst with
    | direct => simp [tailnet]
    | none => simp [tailnet]
    | ssh =>
      -- an SSH verdict would have been terminated anyway
      simp [toStack, match_ip_unmap, verdict] at refused

def officeRules : RoutingConfigJSON where
  sendAllViaSSH := true
  rules :=
    [⟨text "*.example.com", text "ssh"⟩, ⟨text "10.0.0.0/8", text "ssh"⟩,
      ⟨text "10.9.0.0/16", text "direct"⟩, ⟨text "192.168.0.0/16", text "direct"⟩]

def officeState : TailnetNetState where
  addrs := [.ofAddr (.v4 0x64400007#32) 32]
  routes := [.ofAddr (.v4 0x64400000#32) 10]
  domains := [text "tail.ts.net"]
  search := []
  allDomains := false

def officePath (capturing : Bool) : TailnetPath :=
  { newTailnetPath latinTables quadTexts [] officeRules true with
    state := some officeState, capturing := capturing }

def officeQuery : DnsQuestion latinTables where
  name := text "www.example.com"
  isA := true
  lowered := by decide

theorem office_flows_agree :
    (officePath true).egressFor (.v4 0xC0A80101#32) = .direct ∧
      (officePath true).egressFor (.v4 0x64400009#32) = .tailnet :=
  ⟨((demux_dialer_agree (officePath true)).1 (.v4 0xC0A80101#32) (by decide) (by decide +kernel)).2.2
      (by decide +kernel),
    (demux_dialer_agree (officePath true)).2 ⟨.v4 0x64400009#32, ipProtoTCP, 443⟩ (by decide +kernel)
      rfl (by decide) (by decide +kernel)⟩

end Agreement

section History
variable {u : CaseTables}

inductive Event (u : CaseTables) where
  | query (q : DnsQuestion u)
  | remember (ip : Addr)
  | setState (st : Option TailnetNetState)
  | setEgress (e : Option EgressDialers)
  | refreshCapture (capturing servesCA : Bool)

/-- The address of the answer: none for other record types, so that clients stay on the
    fake A record. -/
def fakeAnswer (p : TailnetPath) (q : DnsQuestion u) : Option Addr × TailnetPath :=
  if q.isA then (some (p.fake.assign q.name).1, { p with fake := (p.fake.assign q.name).2 }) else (none, p)

def handle (p : TailnetPath) : Event u → TailnetPath
  | .query q => if (p.dnsRoute (some q) p.state).1 = .fakeAnswer then (p.fakeAnswer q).2 else p
  | .remember ip => { p with directIPs := p.directIPs.add ip }
  | .setState st => { p with state := st }
  | .setEgress e => { p with egress := e }
  | .refreshCapture capturing servesCA => { p with capturing := capturing, servesCA := servesCA }

def run (p : TailnetPath) (events : List (Event u)) : TailnetPath := events.foldl handle p

def asked (p : TailnetPath) : Event u → List Bytes
  | .query q => if (p.dnsRoute (some q) p.state).1 = .fakeAnswer ∧ q.isA = true then [q.name] else []
  | _ => []

def fakeNames (p : TailnetPath) : List (Event u) → List Bytes
  | [] => []
  | e :: events => p.asked e ++ (p.handle e).fakeNames events

theorem fake_answer_ssh {p : TailnetPath} {q : DnsQuestion u} {st : Option TailnetNetState}
    (fake : (p.dnsRoute (some q) st).1 = .fakeAnswer) : p.table.matchHost u q.name = .ssh := by
  simp only [dnsRoute] at fake
  split at fake
  · cases fake
  · split at fake
    · rename_i ssh
      exact ssh
    · cases fake
    · split at fake
      · cases fake
      · split at fake
        · cases fake
        · cases fake

theorem fake_answer_named {p : TailnetPath} {q : DnsQuestion u} {st : Option TailnetNetState}
    (fake : (p.dnsRoute (some q) st).1 = .fakeAnswer) : q.name ≠ [] := by
  intro empty
  have ssh := fake_answer_ssh fake
  rw [empty] at ssh
  cases ssh

theorem handle_fake (p : TailnetPath) (e : Event u) :
    (p.handle e).fake = p.fake.assigned (p.asked e) ∧ [] ∉ p.asked e := by
  cases e with
  | query q =>
    simp only [handle, asked, fakeAnswer]
    by_cases fake : (p.dnsRoute (some q) p.state).1 = .fakeAnswer
    · cases q.isA with
      | true => simpa [fake, FakeIPPool.assigned] using Ne.symm (fake_answer_named fake)
      | false => simp [fake, FakeIPPool.assigned]
    · simp [fake, FakeIPPool.assigned]
  | remember ip => exact ⟨rfl, List.not_mem_nil⟩
  | setState st => exact ⟨rfl, List.not_mem_nil⟩
  | setEgress e => exact ⟨rfl, List.not_mem_nil⟩
  | refreshCapture capturing servesCA => exact ⟨rfl, List.not_mem_nil⟩

theorem run_fake (p : TailnetPath) (events : List (Event u)) :
    (p.run events).fake = p.fake.assigned (p.fakeNames events) ∧ [] ∉ p.fakeNames events := by
  induction events generalizing p with
  | nil => exact ⟨rfl, List.not_mem_nil⟩
  | cons e events ih =>
    obtain ⟨pool, named⟩ := handle_fake p e
    obtain ⟨rest, restNamed⟩ := ih (p.handle e)
    constructor
    · have step : p.run (e :: events) = (p.handle e).run events := rfl
      rw [step, rest, pool, fakeNames]
      simp [FakeIPPool.assigned, List.foldl_append]
    · rw [fakeNames, List.mem_append, not_or]
      exact ⟨named, restNamed⟩

theorem handle_egress_on (p : TailnetPath) (e : Event u) : (p.handle e).egressOn = p.egressOn := by
  cases e with
  | query q =>
    simp only [handle, fakeAnswer]
    split
    · split <;> rfl
    · rfl
  | remember ip => rfl
  | setState st => rfl
  | setEgress e => rfl
  | refreshCapture capturing servesCA => rfl

theorem run_egress_on (p : TailnetPath) (events : List (Event u)) : (p.run events).egressOn = p.egressOn := by
  induction events generalizing p with
  | nil => rfl
  | cons e events ih => exact (ih (p.handle e)).trans (handle_egress_on p e)

end History

end TailnetPath

end TunnelPath
