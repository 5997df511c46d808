import RootShell.TunnelPath

/-!
Flows to fake addresses. The demux takes every address of the fake range, the dialer only
those the pool has a name for: an address that nobody asked for since the tunnel started
is routed like any other.
-/
namespace FakeContainment
open ByteLines ByteText AddressPrefixes RoutingRules FakeAddresses TunnelPath

section Dials
variable {p : TailnetPath} {v : BitVec 32}

theorem egress_tcp_contained (p : TailnetPath) (target : Target) : (p.egressTCP target).contained = true := by
  cases live : p.egress with
  | none => simp [TailnetPath.egressTCP, live, Dialed.contained]
  | some e => simp [TailnetPath.egressTCP, live, Dialed.contained]

theorem egress_udp_contained (p : TailnetPath) (target : Target) : (p.egressUDP target).contained = true := by
  cases live : p.egress with
  | none => simp [TailnetPath.egressUDP, live, Dialed.contained]
  | some e => cases udp : e.udp <;> simp [TailnetPath.egressUDP, live, udp, Dialed.contained]

def hasSource (st : Option TailnetNetState) : Bool :=
  match st with
  | none => false
  | some s => s.addrs.any fun a => a.addr.is4

theorem valid_of_is4 {a : Addr} (is4 : a.is4 = true) : a.isValid = true := by
  cases a with
  | zero => cases is4
  | v4 => rfl
  | v6 => rfl

theorem dial_tailnet_contained (p : TailnetPath) (v : BitVec 32) (port : UInt16) :
    (p.dialTailnet (.v4 v) port).contained = !hasSource p.state := by
  cases state : p.state with
  | none => simp [TailnetPath.dialTailnet, state, hasSource, Dialed.contained]
  | some st =>
    simp only [TailnetPath.dialTailnet, state, hasSource]
    cases found : (st.addrs.map (·.addr)).find? fun a => a.isValid && a.is4 == (Addr.v4 v).is4 with
    | some src =>
      have fits := List.find?_some found
      obtain ⟨q, member, rfl⟩ := List.mem_map.1 (List.mem_of_find?_eq_some found)
      simp only [Addr.is4, Bool.and_eq_true, beq_true] at fits
      have source : st.addrs.any (fun a => a.addr.is4) = true := List.any_eq_true.2 ⟨q, member, fits.2⟩
      rw [source]
      rfl
    | none =>
      have absent : st.addrs.any (fun a => a.addr.is4) = false := by
        rw [List.any_eq_false]
        intro q member is4
        have other := List.find?_eq_none.1 found q.addr (List.mem_map_of_mem member)
        have four : (Addr.v4 v).is4 = true := rfl
        simp [valid_of_is4 is4, is4, four] at other
      rw [absent]
      rfl

theorem unnamed_contained_iff (apart : Addr.v4 v ≠ quad100) (unnamed : p.fake.host (.v4 v) = none) (port : UInt16) :
    ((p.dialTCP (.v4 v) port).contained = true ∧ (p.dialUDP (.v4 v) port).contained = true) ↔
      p.egressFor (.v4 v) = .ssh ∨ (p.egressFor (.v4 v) = .tailnet ∧ hasSource p.state = false) := by
  simp only [TailnetPath.dialTCP, TailnetPath.dialUDP, apart, false_and, if_false, unnamed]
  cases p.egressFor (.v4 v) with
  | ssh => simp [egress_tcp_contained, egress_udp_contained]
  | tailnet =>
    have refused : (Dialed.refused (.tailnetUDP (.v4 v) port)).contained = true := rfl
    simp [dial_tailnet_contained, refused]
  | direct => simp [Dialed.contained]

theorem named_contained (on : p.egressOn = true) (apart : Addr.v4 v ≠ quad100)
    (named : (p.fake.host (.v4 v)).isSome = true) (port : UInt16) :
    (p.dialTCP (.v4 v) port).contained = true ∧ (p.dialUDP (.v4 v) port).contained = true := by
  obtain ⟨name, found⟩ := Option.isSome_iff_exists.1 named
  simp [TailnetPath.dialTCP, TailnetPath.dialUDP, apart, found, on, egress_tcp_contained,
    egress_udp_contained]

end Dials

section Range
variable {v : BitVec 32}

theorem fake_not_resolver (inside : fakeIPPrefix.contains (.v4 v) = true) : Addr.v4 v ≠ quad100 := by
  intro same
  rw [same] at inside
  revert inside
  decide

theorem fake_to_netstack {p : TailnetPath} (on : p.egressOn = true) (inside : fakeIPPrefix.contains (.v4 v) = true)
    (info : IpPacketInfo) (dst : info.dst = .v4 v) : p.injectPacket info = .netstack := by
  have resolver := fake_not_resolver inside
  have resolver6 : Addr.v4 v ≠ quad100v6 := Addr.noConfusion
  have terminated : p.toStack (.v4 v) p.state = true := by
    simp [TailnetPath.toStack, on, Addr.unmap_v4, inside]
  simp [TailnetPath.injectPacket, dst, resolver, resolver6, terminated]

end Range

/-- Where a fake address stays behind the SSH egress although the pool has no name for
    it: an SSH rule or the full-tunnel default takes it, or it is on the tailnet and there
    is no address to dial from. -/
def Covered (p : TailnetPath) (a : Addr) : Prop :=
  p.table.matchIP a = .ssh ∨
    (routesContain p.state a = true ∧ hasSource p.state = false) ∨
    (p.table.matchIP a = .none ∧ routesContain p.state a = false ∧ p.table.sendAllViaSSH = true ∧
      p.directIPs.contains a = false)

theorem covered_iff (p : TailnetPath) (a : Addr) :
    Covered p a ↔ p.egressFor a = .ssh ∨ (p.egressFor a = .tailnet ∧ hasSource p.state = false) := by
  rw [Covered, p.egress_for_eq]
  cases p.table.matchIP a with
  | ssh => simp
  | direct => cases routesContain p.state a <;> simp
  | none =>
    cases routesContain p.state a with
    | true => simp
    | false => cases p.table.sendAllViaSSH <;> cases p.directIPs.contains a <;> simp

def Allocated (hosts : List Bytes) (v : BitVec 32) : Prop :=
  ¬ v < newFakeIPPool.base ∧ (v - newFakeIPPool.base).toNat < fakeIPCapacity ∧
    (v - newFakeIPPool.base).toNat < FakeIPPool.allocations hosts

/-- Every packet to a fake address is terminated, and it is dialed through the SSH egress
    or refused exactly where the queries so far have handed its address out or it is
    covered otherwise. -/
theorem fake_contained_iff {u : CaseTables} (net : AddressTexts) (socks5Address : Bytes) (routing : RoutingConfigJSON)
    (tsshEgress : Bool) (events : List (TailnetPath.Event u)) (v : BitVec 32) (port : UInt16)
    (configured : (newTailnetPath u net socks5Address routing tsshEgress).egressOn = true)
    (inside : fakeIPPrefix.contains (.v4 v) = true) :
    let start := newTailnetPath u net socks5Address routing tsshEgress
    let p := start.run events
    (∀ info : IpPacketInfo, info.dst = .v4 v → p.injectPacket info = .netstack) ∧
      (((p.dialTCP (.v4 v) port).contained = true ∧ (p.dialUDP (.v4 v) port).contained = true) ↔
        Allocated (start.fakeNames events) v ∨ Covered p (.v4 v)) := by
  intro start p
  have on : p.egressOn = true := (TailnetPath.run_egress_on start events).trans configured
  have apart := fake_not_resolver inside
  obtain ⟨pool, named⟩ := TailnetPath.run_fake start events
  have names : (p.fake.host (.v4 v)).isSome = true ↔ Allocated (start.fakeNames events) v := by
    rw [show p.fake = newFakeIPPool.assigned (start.fakeNames events) from pool]
    exact FakeIPPool.named_iff_allocated named v
  refine ⟨fun info dst => fake_to_netstack on inside info dst, ?_⟩
  rw [← names, covered_iff]
  cases found : p.fake.host (.v4 v) with
  | some name =>
    have contained := named_contained on apart (by rw [found]; rfl) port
    exact iff_of_true contained (Or.inl rfl)
  | none =>
    rw [unnamed_contained_iff apart found port]
    simp

def hostRule : RoutingConfigJSON where
  sendAllViaSSH := false
  rules := [⟨text "example.com", text "ssh"⟩]

theorem asked_name_contained :
    let p := (newTailnetPath latinTables quadTexts [] hostRule true).run [.query TailnetPath.officeQuery]
    (p.dialTCP (.v4 0xC6120002#32) 443).contained = true ∧
      (p.dialUDP (.v4 0xC6120002#32) 443).contained = true :=
  (fake_contained_iff quadTexts [] hostRule true [.query TailnetPath.officeQuery] 0xC6120002#32 443
    (by decide) (by decide)).2.2 (Or.inl ⟨by decide, by decide, by decide +kernel⟩)

/-- After a restart the pool is empty: the same address, still known to a client, is
    terminated and then dialed on the physical interface. -/
theorem restarted_pool_leaks :
    let p := newTailnetPath latinTables quadTexts [] hostRule true
    p.egressOn = true ∧ fakeIPPrefix.contains (.v4 0xC6120002#32) = true ∧
      p.injectPacket ⟨.v4 0xC6120002#32, ipProtoTCP, 443⟩ = .netstack ∧
      p.dialTCP (.v4 0xC6120002#32) 443 = .direct (.v4 0xC6120002#32) 443 ∧
      p.dialUDP (.v4 0xC6120002#32) 443 = .direct (.v4 0xC6120002#32) 443 := by
  decide +kernel

end FakeContainment
