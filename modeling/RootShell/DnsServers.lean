import RootShell.Socks5Handshakes
import RootShell.UrlHosts

/-!
Addresses of DNS servers (tssh/dns.go). What the user writes is read as a URL, whose host
is split and joined again so that it always has a port.
-/
namespace DnsServers
open ByteLines ByteText UrlHosts
open HostRules (cutLast cut_last_behind)
open Socks5Handshakes (splitHostPort split_join)
open UdpFlows (joinHostPort)

variable {host port s : Bytes}

section Code

def dialAddress (svrHost : Bytes) : Bytes :=
  match splitHostPort svrHost with
  | some (host, port) => joinHostPort host port
  | none => joinHostPort svrHost (text "53")

def resolveDnsAddress (strictColons : Bool) (dns : Bytes) : Except UrlError (Bytes × Bytes) := do
  let preParseDns := if text "://" <:+: dns then dns else text "udp://" ++ dns
  let svrParse ← parse strictColons preParseDns
  let network := if svrParse.scheme.map lowerByte = text "tcp" then text "tcp" else text "udp"
  pure (network, dialAddress svrParse.host)

end Code

section Servers

def isName (host : Bytes) : Bool :=
  host != [] && host.all fun b => isLetter b || isDigit b || [45, 95, 46].contains b || 0x80 ≤ b

/-- The ways to write a server. An IPv6 address has a port only behind brackets. -/
structure Server where
  scheme : Option Bytes
  host : Bytes
  bracketed : Bool
  port : Option Bytes
  known : ∀ s ∈ scheme, s.map lowerByte = text "udp" ∨ s.map lowerByte = text "tcp"
  form : isName host = true ∧ bracketed = false ∨ isIPv6 host = true ∧ (port ≠ none → bracketed = true)
  digits : ∀ p ∈ port, p.all isDigit = true

def Server.colonPort (server : Server) : Bytes :=
  match server.port with
  | none => []
  | some port => 58 :: port

def Server.authority (server : Server) : Bytes :=
  if server.bracketed then 91 :: server.host ++ 93 :: server.colonPort else server.host ++ server.colonPort

def Server.written (server : Server) : Bytes :=
  match server.scheme with
  | none => server.authority
  | some scheme => scheme ++ text "://" ++ server.authority

def Server.network (server : Server) : Bytes :=
  if server.scheme.any fun s => s.map lowerByte = text "tcp" then text "tcp" else text "udp"

def Server.Normalised (server : Server) (result : Except UrlError (Bytes × Bytes)) : Prop :=
  ∃ address, result = .ok (server.network, address) ∧
    splitHostPort address = some (server.host, server.port.getD (text "53"))

end Servers

section Resolving
variable {strictColons : Bool} {server : Server}

theorem name_plain (name : isName host = true) : ∀ b ∈ host, addressByte b = true ∧ b ≠ 58 ∧ b ≠ 91 ∧ b ≠ 93 := by
  rw [isName, Bool.and_eq_true, List.all_eq_true] at name
  intro b member
  have byte := name.2 b member
  refine ⟨?_, ?_, ?_, ?_⟩
  · simp only [addressByte, Bool.or_eq_true] at byte ⊢
    rcases byte with (alnum | mark) | large
    · exact Or.inl (Or.inl alnum)
    · refine Or.inl (Or.inr ?_)
      simp only [List.contains_cons, List.contains_nil, Bool.or_eq_true, Bool.or_false] at mark ⊢
      tauto
    · exact Or.inr large
  all_goals
    rintro rfl
    exact absurd byte (by decide)

theorem colon_port_valid (server : Server) : validOptionalPort server.colonPort = true := by
  have digits := server.digits
  unfold Server.colonPort
  cases port : server.port with
  | none => rfl
  | some p => exact digits p port

theorem authority_plain (server : Server) : ∀ b ∈ server.authority, addressByte b = true := by
  have host : ∀ b ∈ server.host, addressByte b = true := by
    rcases server.form with ⟨name, _⟩ | ⟨address, _⟩
    · exact fun b member => (name_plain name b member).1
    · exact ipv6_plain address
  have port := valid_port_plain (colon_port_valid server)
  unfold Server.authority
  split
  · refine List.forall_mem_append.2 ⟨List.forall_mem_cons.2 ⟨by decide, host⟩, List.forall_mem_cons.2 ⟨by decide, port⟩⟩
  · exact List.forall_mem_append.2 ⟨host, port⟩

theorem network_letters (known : s.map lowerByte = text "udp" ∨ s.map lowerByte = text "tcp") :
    s ≠ [] ∧ ∀ b ∈ s, isLetter b = true := by
  have letters : ∀ b, isLetter (lowerByte b) = true → isLetter b = true := every_byte (by decide +kernel)
  have all : (∀ b ∈ s.map lowerByte, isLetter b = true) ∧ s.map lowerByte ≠ [] := by
    rcases known with same | same <;> rw [same] <;> decide +kernel
  constructor
  · rintro rfl
    exact all.2 rfl
  · intro b member
    exact letters b (all.1 _ (List.mem_map_of_mem member))

theorem lower_lower (s : Bytes) : (s.map lowerByte).map lowerByte = s.map lowerByte := by
  have bytes : ∀ b, lowerByte (lowerByte b) = lowerByte b := every_byte (by decide +kernel)
  rw [List.map_map]
  exact List.map_congr_left fun b _ => bytes b

theorem resolve_written (server : Server) :
    resolveDnsAddress strictColons server.written =
      (parseHost strictColons server.authority).map fun host => (server.network, dialAddress host) := by
  have plain := authority_plain server
  unfold resolveDnsAddress Server.written Server.network
  cases scheme : server.scheme with
  | none =>
    have slash : 47 ∉ server.authority := address_absent (by decide) plain
    have bare : ¬ text "://" <:+: server.authority := fun inside => slash (inside.subset (by decide))
    have parsed : parse strictColons (text "udp" ++ text "://" ++ server.authority) = _ :=
      parse_address (by decide) (by decide) plain
    simp only [if_neg bare]
    rw [show text "udp://" = text "udp" ++ text "://" from rfl, parsed]
    cases parseHost strictColons server.authority <;> rfl
  | some s =>
    obtain ⟨nonempty, letters⟩ := network_letters (server.known s scheme)
    have inside : text "://" <:+: s ++ text "://" ++ server.authority := ⟨s, server.authority, rfl⟩
    simp only [if_pos inside, parse_address nonempty letters plain]
    cases parseHost strictColons server.authority with
    | error err => rfl
    | ok host =>
      change Except.ok (if (s.map lowerByte).map lowerByte = text "tcp" then text "tcp" else text "udp", _) = _
      simp only [lower_lower, Option.any_some, decide_eq_true_eq, Except.map]

theorem normalised_iff (server : Server) :
    server.Normalised (resolveDnsAddress strictColons server.written) ↔
      ∃ host, parseHost strictColons server.authority = .ok host ∧
        splitHostPort (dialAddress host) = some (server.host, server.port.getD (text "53")) := by
  rw [resolve_written, Server.Normalised]
  cases parseHost strictColons server.authority with
  | error err => simp [Except.map]
  | ok host => simp [Except.map]

theorem digits_clean (all : port.all isDigit = true) : 58 ∉ port ∧ 91 ∉ port ∧ 93 ∉ port := by
  rw [List.all_eq_true] at all
  exact ⟨fun member => absurd (all 58 member) (by decide), fun member => absurd (all 91 member) (by decide),
    fun member => absurd (all 93 member) (by decide)⟩

theorem dial_joined (plain : 91 ∉ host ∧ 93 ∉ host) (all : port.all isDigit = true) :
    splitHostPort (dialAddress (joinHostPort host port)) = some (host, port) := by
  have split := split_join plain (digits_clean all)
  rw [dialAddress, split]
  exact split

theorem dial_default (plain : 91 ∉ host ∧ 93 ∉ host) (whole : splitHostPort host = none) :
    splitHostPort (dialAddress host) = some (host, text "53") := by
  rw [dialAddress, whole]
  exact split_join plain (by decide)

theorem split_without_colon (absent : 58 ∉ host) : splitHostPort host = none := by
  rw [splitHostPort, cut_last_absent absent]

theorem split_many_colons (opening : 91 ∉ host) (colons : 2 ≤ host.count 58) : splitHostPort host = none := by
  obtain ⟨front, back, rfl, absent⟩ := last_occurrence (List.count_pos_iff.1 (show 0 < host.count 58 by omega))
  rw [List.count_append, List.count_cons_self, List.count_eq_zero_of_not_mem absent] at colons
  have inside : 58 ∈ front := List.count_pos_iff.1 (by omega)
  have first : (front ++ 58 :: back).head? ≠ some 91 := fun starts => opening (List.mem_of_head? starts)
  simp only [splitHostPort, cut_last_behind absent front]
  rw [if_neg first, if_pos (Or.inl inside)]

theorem dial_bracketed (address : isIPv6 host = true) : splitHostPort (dialAddress (91 :: host ++ [93])) = none := by
  have whole : splitHostPort (91 :: host ++ [93]) = none := by
    obtain ⟨front, back, rfl, absent⟩ := last_occurrence (ipv6_colon address)
    have cut : cutLast [58] (91 :: (front ++ 58 :: back) ++ [93]) = some (91 :: front, back ++ [93]) := by
      have clean : 58 ∉ back ++ [93] := by simp [absent]
      simpa using cut_last_behind clean (91 :: front)
    simp only [splitHostPort, cut]
    rw [if_pos (by rfl), if_neg (by simp)]
  have colon : 58 ∈ 91 :: host ++ [93] := by simp [ipv6_colon address]
  have cut : cutLast [58] (91 :: (91 :: host ++ [93]) ++ [93, 58] ++ text "53") =
      some (91 :: (91 :: host ++ [93]) ++ [93], text "53") := by
    have clean : 58 ∉ text "53" := by decide
    have found := cut_last_behind clean (91 :: (91 :: host ++ [93]) ++ [93])
    simpa using found
  rw [dialAddress, whole]
  simp only [joinHostPort, if_pos colon, splitHostPort, cut]
  rw [if_pos (by rfl), if_neg (by simp)]

end Resolving

section Normalising
variable {strictColons : Bool} {server : Server}

theorem name_clean (name : isName host = true) : 58 ∉ host ∧ 91 ∉ host ∧ 93 ∉ host :=
  ⟨fun member => (name_plain name 58 member).2.1 rfl, fun member => (name_plain name 91 member).2.2.1 rfl,
    fun member => (name_plain name 93 member).2.2.2 rfl⟩

theorem ipv6_clean (address : isIPv6 host = true) : 91 ∉ host ∧ 93 ∉ host :=
  ⟨ipv6_absent address (by decide) (by decide) (by decide), ipv6_absent address (by decide) (by decide) (by decide)⟩

theorem normalised_name (name : isName server.host = true) (bare : server.bracketed = false) :
    server.Normalised (resolveDnsAddress strictColons server.written) := by
  have plain := authority_plain server
  obtain ⟨colon, opening, closing⟩ := name_clean name
  have authority : server.authority = server.host ++ server.colonPort := by simp [Server.authority, bare]
  have valid := colon_port_valid server
  have clean : 91 ∉ server.authority := by
    have behind : 91 ∉ server.colonPort := valid_port_absent valid (by decide) (by decide)
    simp [authority, opening, behind]
  have parsed : parseHost strictColons server.authority = .ok server.authority := by
    have port : UrlHosts.colonPort strictColons server.authority = server.colonPort := by
      rw [authority, colon_port_behind colon valid]
    rw [parse_host_open clean plain, port, if_pos valid]
  rw [normalised_iff]
  refine ⟨server.authority, parsed, ?_⟩
  have digits := server.digits
  cases port : server.port with
  | none =>
    have whole : server.authority = server.host := by simp [authority, Server.colonPort, port]
    rw [whole]
    exact dial_default ⟨opening, closing⟩ (split_without_colon colon)
  | some p =>
    have joined : server.authority = joinHostPort server.host p := by
      simp [authority, Server.colonPort, port, joinHostPort, colon]
    rw [joined]
    exact dial_joined ⟨opening, closing⟩ (digits p port)

theorem normalised_bracketed (address : isIPv6 server.host = true) (bracketed : server.bracketed = true) :
    server.Normalised (resolveDnsAddress strictColons server.written) ↔ server.port ≠ none := by
  have authority : server.authority = 91 :: server.host ++ 93 :: server.colonPort := by
    simp [Server.authority, bracketed]
  have parsed : parseHost strictColons server.authority = .ok server.authority := by
    rw [authority]
    exact parse_host_bracketed address (colon_port_valid server)
  have digits := server.digits
  rw [normalised_iff, parsed]
  cases port : server.port with
  | none =>
    have whole : server.authority = 91 :: server.host ++ [93] := by rw [authority, Server.colonPort, port]
    have lost := dial_bracketed address
    rw [← whole] at lost
    simp [lost]
  | some p =>
    have colon := ipv6_colon address
    have joined : server.authority = joinHostPort server.host p := by
      simp [authority, Server.colonPort, port, joinHostPort, colon]
    have kept := dial_joined (ipv6_clean address) (digits p port)
    rw [← joined] at kept
    simp [kept]

theorem normalised_bare (address : isIPv6 server.host = true) (bare : server.bracketed = false) :
    server.Normalised (resolveDnsAddress strictColons server.written) ↔
      strictColons = false ∧ DecimalEnd server.host := by
  have alone : server.port = none := by
    rcases server.form with ⟨name, _⟩ | ⟨_, only⟩
    · exact absurd (ipv6_colon address) (name_clean name).1
    · by_contra port
      rw [only port] at bare
      cases bare
  have authority : server.authority = server.host := by simp [Server.authority, bare, Server.colonPort, alone]
  obtain ⟨opening, closing⟩ := ipv6_clean address
  have colons := (ipv6_bytes address).2
  have split := dial_default ⟨opening, closing⟩ (split_many_colons opening colons)
  rw [normalised_iff, authority, parse_host_open opening (ipv6_plain address), alone, ← bare_host_iff colons]
  by_cases valid : validOptionalPort (UrlHosts.colonPort strictColons server.host) = true
  · simp [valid, split]
  · simp [valid]

/-- Names and IPv4 addresses are normalised, and so is an IPv6 address in brackets with a
    port. Without a port the brackets stay, and a bare address is taken for a host with a
    port that is none, but where the checks are loose and its last group is decimal. -/
theorem normalised_exact (strictColons : Bool) (server : Server) :
    server.Normalised (resolveDnsAddress strictColons server.written) ↔
      (server.bracketed = true → server.port ≠ none) ∧
        (isIPv6 server.host = true → server.bracketed = false → strictColons = false ∧ DecimalEnd server.host) := by
  rcases server.form with ⟨name, bare⟩ | ⟨address, _⟩
  · have other : isIPv6 server.host ≠ true := fun address => (name_clean name).1 (ipv6_colon address)
    simp [normalised_name name bare, bare, other]
  · cases bracketed : server.bracketed with
    | true => simp [normalised_bracketed address bracketed]
    | false => simp [normalised_bare address bracketed, address]

def localServer (bracketed : Bool) : Server where
  scheme := none
  host := text "fe80::1a"
  bracketed := bracketed
  port := none
  known := by simp
  form := Or.inr ⟨by decide, fun port => absurd rfl port⟩
  digits := by simp

theorem brackets_doubled :
    ((localServer true).written = text "[fe80::1a]" ∧ (localServer false).written = text "fe80::1a") ∧
      (∀ strictColons,
        resolveDnsAddress strictColons (text "[fe80::1a]") = .ok (text "udp", text "[[fe80::1a]]:53") ∧
          resolveDnsAddress strictColons (text "fe80::1a") =
            .error (.invalidPort (text (if strictColons then "::1a" else ":1a")))) ∧
      ∀ strictColons bracketed,
        ¬ (localServer bracketed).Normalised (resolveDnsAddress strictColons (localServer bracketed).written) := by
  have written : (localServer true).written = text "[fe80::1a]" ∧ (localServer false).written = text "fe80::1a" := by
    decide
  have doubled : ∀ strictColons,
      resolveDnsAddress strictColons (text "[fe80::1a]") = .ok (text "udp", text "[[fe80::1a]]:53") := by
    decide +kernel
  have refused : ∀ strictColons,
      resolveDnsAddress strictColons (text "fe80::1a") =
        .error (.invalidPort (text (if strictColons then "::1a" else ":1a"))) := by
    decide +kernel
  refine ⟨written, fun strictColons => ⟨doubled strictColons, refused strictColons⟩, ?_⟩
  rintro strictColons (_ | _) ⟨address, resolved, split⟩
  · rw [written.2, refused] at resolved
    cases resolved
  · rw [written.1, doubled] at resolved
    cases resolved
    exact absurd split (by decide)

end Normalising

end DnsServers
