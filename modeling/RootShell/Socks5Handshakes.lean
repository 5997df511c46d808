import RootShell.HostRules
import RootShell.UdpFlows
import RootShell.WireExchanges
import RootShell.WordFields

/-!
SOCKS5 from both ends: socks5HandshakeAuth, socks5CheckPassword and socks5SendReply of
iosbridge/forward.go are the server, socks5Handshake of vpntunnel/dialer.go is the client.
-/
namespace Socks5Handshakes
open ByteLines ByteText WordFields FallibleState FilledReads WireExchanges
open HostRules (cutLast)
open UdpFlows (joinHostPort dottedText readDotted dotted_read)

variable {host front v methods target u s ip v4 answer got user pass a : Bytes} {ver want hi lo : UInt8}
  {count port : Nat} {B : Type}

section Addresses

/-- The front of a 16-byte address that stands for an IPv4 address. -/
def v4InV6 : Bytes := List.replicate 10 0 ++ [0xFF, 0xFF]

def to4 (ip : Bytes) : Option Bytes :=
  if ip.length = 4 then some ip
  else if ip.length = 16 ∧ ip.take 12 = v4InV6 then some (ip.drop 12)
  else none

/-- The texts of package net: ParseIP, IP.String and LookupPort for tcp. A text of an address
    is read back as that address. -/
structure NetTexts where
  parseIP : Bytes → Option Bytes
  ipString : Bytes → Bytes
  lookupPort : Bytes → Option Nat
  parse_length : ∀ s ip, parseIP s = some ip → ip.length = 16
  parse_four : ∀ a, a.length = 4 → parseIP (ipString a) = some (v4InV6 ++ a)
  parse_sixteen : ∀ ip, ip.length = 16 → to4 ip = none → parseIP (ipString ip) = some ip
  lookup_bound : ∀ s port, lookupPort s = some port → port < 65536
  lookup_decimal : ∀ port < 65536, lookupPort (itoa port) = some port

def splitHostPort (hostport : Bytes) : Option (Bytes × Bytes) :=
  match cutLast [58] hostport with
  | none => none
  | some (front, port) =>
    if hostport.head? = some 91 then
      -- the first closing bracket stands right before the last colon
      if front.getLast? = some 93 ∧ 93 ∉ front.dropLast ∧ 91 ∉ hostport.tail ∧ 93 ∉ port then
        some (front.tail.dropLast, port)
      else none
    else if 58 ∈ front ∨ 91 ∈ hostport ∨ 93 ∈ hostport then none
    else some (front, port)

end Addresses

abbrev Channel := Wire UInt8 ReadError Bytes

section Server

inductive ServerError where
  | plain (message : Bytes)
  | socks5Error (rep : UInt8) (msg : Bytes)

abbrev ServerAct (A : Type) := Prog Channel ServerError A

structure Credentials where
  user : Bytes
  pass : Bytes

def readFullServer (count : Nat) (failed : ReadError → ServerError) : ServerAct Bytes :=
  recv (readFull .eof .unexpectedEOF) count failed

def readError (what : String) (err : ReadError) : ServerError := .plain (text what ++ err.message)

def requestError (what : String) (err : ReadError) : ServerError := .socks5Error 0x01 (text what ++ err.message)

/-- The closure of socks5CheckPassword: a length byte and as many bytes. -/
def readCounted (failed : ReadError → ServerError) : ServerAct Bytes := do
  let n ← readFullServer 1 failed
  readFullServer (n.getD 0 0).toNat failed

def judge (creds : Credentials) (ver : UInt8) (user pass : Bytes) : ServerAct Unit :=
  if ver = 0x01 ∧ user = creds.user ∧ pass = creds.pass then send [0x01, 0x00] .plain
  else do
    sendAnyway [0x01, 0x01]
    throw (.plain (text "SOCKS authentication failed"))

def socks5CheckPassword (creds : Credentials) : ServerAct Unit := do
  let ver ← readFullServer 1 (readError "read auth version: ")
  let user ← readCounted (readError "read username: ")
  let pass ← readCounted (readError "read password: ")
  judge creds (ver.getD 0 0) user pass

def wanted (creds : Option Credentials) : UInt8 := if creds.isSome then 0x02 else 0x00

def chooseMethod (methods : Bytes) (want : UInt8) : ServerAct Unit :=
  if want ∈ methods then send [0x05, want] fun err => .plain (text "write method reply: " ++ err)
  else do
    sendAnyway [0x05, 0xFF]
    throw (.plain (text "client does not offer SOCKS method " ++ itoa want.toNat))

def authenticate : Option Credentials → ServerAct Unit
  | none => pure ()
  | some creds => socks5CheckPassword creds

def readHost (net : NetTexts) (atyp : UInt8) : ServerAct Bytes :=
  if atyp = 0x01 then do
    let ip ← readFullServer 4 (requestError "read IPv4 address: ")
    pure (net.ipString ip)
  else if atyp = 0x03 then do
    let lenBuf ← readFullServer 1 (requestError "read domain length: ")
    readFullServer (lenBuf.getD 0 0).toNat (requestError "read domain: ")
  else if atyp = 0x04 then do
    let ip ← readFullServer 16 (requestError "read IPv6 address: ")
    pure (net.ipString ip)
  else throw (.socks5Error 0x08 (text "unsupported address type: " ++ itoa atyp.toNat))

def readRequest (net : NetTexts) : ServerAct (Bytes × Nat) := do
  let reqHeader ← readFullServer 4 (requestError "read request header: ")
  refuse (reqHeader.getD 0 0 ≠ 0x05)
    (.socks5Error 0x01 (text "unsupported SOCKS version in request: " ++ itoa (reqHeader.getD 0 0).toNat))
  refuse (reqHeader.getD 1 0 ≠ 0x01)
    (.socks5Error 0x07
      (text "unsupported SOCKS command: " ++ itoa (reqHeader.getD 1 0).toNat ++ text " (only CONNECT supported)"))
  let host ← readHost net (reqHeader.getD 3 0)
  let portBuf ← readFullServer 2 (requestError "read port: ")
  pure (host, (portBuf.getD 0 0).toNat * 256 + (portBuf.getD 1 0).toNat)

def socks5HandshakeAuth (net : NetTexts) (creds : Option Credentials) : ServerAct (Bytes × Nat) := do
  let header ← readFullServer 2 (readError "read method header: ")
  refuse (header.getD 0 0 ≠ 0x05) (.plain (text "unsupported SOCKS version: " ++ itoa (header.getD 0 0).toNat))
  let methods ← readFullServer (header.getD 1 0).toNat (readError "read methods: ")
  chooseMethod methods (wanted creds)
  authenticate creds
  readRequest net

def socks5SendReply (status : UInt8) : ServerAct Unit :=
  sendAnyway [0x05, status, 0x00, 0x01, 0, 0, 0, 0, 0, 0]

end Server

section Client

inductive ClientError where
  | invalidAddress (targetAddr : Bytes)
  | invalidPort (portStr : Bytes)
  | failed (message : Bytes)

abbrev ClientAct (A : Type) := Prog Channel ClientError A

def readAll (count : Nat) (what : String) : ClientAct Bytes :=
  recv fill count fun err => .failed (text what ++ err.message)

def writeAll (data : Bytes) (what : String) : ClientAct Unit := send data fun err => .failed (text what ++ err)

def hexByte (b : UInt8) : Bytes :=
  if b.toNat < 16 then [hexDigit b.toNat] else hexBytes [b]

def hostBytes (net : NetTexts) (host : Bytes) : Bytes :=
  match net.parseIP host with
  | some ip =>
    match to4 ip with
    | some v4 => 0x01 :: v4
    | none => 0x04 :: ip
  | none => 0x03 :: UInt8.ofNat host.length :: host

def connectRequest (net : NetTexts) (host : Bytes) (port : Nat) : Bytes :=
  [0x05, 0x01, 0x00] ++ hostBytes net host ++ [UInt8.ofNat (port / 256), UInt8.ofNat (port % 256)]

def skipBound (atyp : UInt8) : ClientAct Bytes :=
  if atyp = 0x01 then readAll 6 "skip ipv4 bound addr: "
  else if atyp = 0x03 then do
    let lenBuf ← readAll 1 "read domain len: "
    readAll ((lenBuf.getD 0 0).toNat + 2) "skip domain bound addr: "
  else if atyp = 0x04 then readAll 18 "skip ipv6 bound addr: "
  else throw (.failed (text "unknown address type: " ++ itoa atyp.toNat))

def readReply : ClientAct Unit := do
  let reply ← readAll 4 "read connect reply: "
  refuse (reply.getD 0 0 ≠ 0x05) (.failed (text "invalid SOCKS version in reply: " ++ itoa (reply.getD 0 0).toNat))
  refuse (reply.getD 1 0 ≠ 0x00) (.failed (text "SOCKS5 connect failed: status " ++ itoa (reply.getD 1 0).toNat))
  let _ ← skipBound (reply.getD 3 0)
  pure ()

def connectTo (net : NetTexts) (host : Bytes) (port : Nat) : ClientAct Unit := do
  writeAll [0x05, 0x01, 0x00] "write method: "
  let methodResp ← readAll 2 "read method response: "
  refuse (methodResp.getD 0 0 ≠ 0x05 ∨ methodResp.getD 1 0 ≠ 0x00)
    (.failed (text "unsupported auth method: " ++ hexByte (methodResp.getD 1 0)))
  writeAll (connectRequest net host port) "write connect: "
  readReply

def socks5Handshake (net : NetTexts) (targetAddr : Bytes) : ClientAct Unit :=
  match splitHostPort targetAddr with
  | none => throw (.invalidAddress targetAddr)
  | some (host, portStr) =>
    match net.lookupPort portStr with
    | none => throw (.invalidPort portStr)
    | some port => connectTo net host port

end Client

section Targets

theorem split_join {port : Bytes} (plain : 91 ∉ host ∧ 93 ∉ host) (number : 58 ∉ port ∧ 91 ∉ port ∧ 93 ∉ port) :
    splitHostPort (joinHostPort host port) = some (host, port) := by
  obtain ⟨noOpen, noClose⟩ := plain
  obtain ⟨noColon, portOpen, portClose⟩ := number
  unfold joinHostPort
  split
  · have cut : cutLast [58] (91 :: host ++ [93, 58] ++ port) = some (91 :: host ++ [93], port) := by
      have found := HostRules.cut_last_behind noColon (91 :: host ++ [93])
      simpa using found
    have last : (91 :: host ++ [93]).getLast? = some 93 := List.getLast?_concat
    have front : (91 :: host ++ [93]).dropLast = 91 :: host := List.dropLast_concat
    have first : 93 ∉ (91 :: host ++ [93]).dropLast := by
      rw [front]
      simpa using noClose
    simp only [splitHostPort, cut]
    rw [if_pos (by rfl), if_pos ⟨last, first, by simp [noOpen, portOpen], portClose⟩]
    simp
  · rename_i bare
    have cut := HostRules.cut_last_behind noColon host
    have start : (host ++ 58 :: port).head? ≠ some 91 := by
      intro starts
      cases host with
      | nil => cases starts
      | cons b host => exact noOpen (by simp_all)
    simp only [splitHostPort, cut]
    rw [if_neg start, if_neg (by simp [bare, noOpen, noClose, portOpen, portClose])]

theorem split_plain {port : Bytes} (split : splitHostPort target = some (host, port)) : 91 ∉ host ∧ 93 ∉ host := by
  unfold splitHostPort at split
  split at split
  · cases split
  rename_i front behind cut
  have whole := HostRules.cut_last_eq cut
  split at split
  · split at split
    · rename_i closed
      obtain ⟨rfl, rfl⟩ := Prod.mk.inj (Option.some.inj split)
      obtain ⟨last, first, opening, _⟩ := closed
      cases front with
      | nil => cases last
      | cons b front =>
        rw [List.tail_cons]
        constructor
        · intro member
          exact opening (by simp [whole, List.mem_of_mem_dropLast member])
        · intro member
          refine first ?_
          cases front with
          | nil => cases member
          | cons next front => exact List.mem_cons_of_mem b member
    · cases split
  · split at split
    · cases split
    · rename_i bare
      obtain ⟨rfl, rfl⟩ := Prod.mk.inj (Option.some.inj split)
      simp_all

end Targets

section Serving
variable {net : NetTexts} {next : Bytes → ServerAct B}

theorem read_full_takes_front (length : front.length = count)
    (failed : ReadError → ServerError) : Takes Steady (readFullServer count failed) front front [] :=
  takes_recv (read_full_takes _ _) length failed

theorem read_full_then {b : B} (length : front.length = count)
    (failed : ReadError → ServerError) (behind : Takes Steady (next front) u b v) :
    Takes Steady (readFullServer count failed >>= next) (front ++ u) b v :=
  takes_recv_then (read_full_takes _ _) length failed behind

theorem read_full_last {b : B} (length : front.length = count) (failed : ReadError → ServerError)
    (behind : Takes Steady (next front) [] b v) : Takes Steady (readFullServer count failed >>= next) front b v :=
  takes_recv_last (read_full_takes _ _) length failed behind

theorem byte_count (short : s.length ≤ 255) : (UInt8.ofNat s.length).toNat = s.length := by
  rw [UInt8.toNat_ofNat']
  omega

theorem to4_mapped (size : ip.length = 16) (mapped : to4 ip = some v4) : v4.length = 4 ∧ v4InV6 ++ v4 = ip := by
  unfold to4 at mapped
  rw [if_neg (by omega)] at mapped
  split at mapped
  · rename_i front
    cases mapped
    refine ⟨by simp [size], ?_⟩
    rw [← front.2, List.take_append_drop]
  · cases mapped

theorem read_ip_takes (length : ip.length = count) (failed : ReadError → ServerError) :
    Takes Steady (readFullServer count failed >>= fun ip => pure (net.ipString ip)) ip (net.ipString ip) [] := by
  refine read_full_last length failed ?_
  exact takes_pure _

theorem host_taken (short : net.parseIP host = none → host.length ≤ 255) :
    ∃ atyp body found, hostBytes net host = atyp :: body ∧ Takes Steady (readHost net atyp) body found [] ∧
      net.parseIP found = net.parseIP host ∧ (net.parseIP host = none → found = host) := by
  unfold hostBytes
  cases parsed : net.parseIP host with
  | none =>
    refine ⟨0x03, [UInt8.ofNat host.length] ++ host, host, rfl, ?_, parsed, fun _ => rfl⟩
    have name : Takes Steady (readFullServer ([UInt8.ofNat host.length].getD 0 0).toNat (requestError "read domain: "))
        host host [] := read_full_takes_front (byte_count (short parsed)).symm _
    rw [readHost, if_neg (by decide), if_pos rfl]
    refine read_full_then (by rfl) _ ?_
    exact name
  | some ip =>
    have size := net.parse_length host ip parsed
    cases mapped : to4 ip with
    | some v4 =>
      obtain ⟨four, whole⟩ := to4_mapped size mapped
      refine ⟨0x01, v4, net.ipString v4, by simp only [mapped], ?_, by rw [net.parse_four v4 four, whole], by simp⟩
      rw [readHost, if_pos rfl]
      exact read_ip_takes four _
    | none =>
      refine ⟨0x04, ip, net.ipString ip, by simp only [mapped], ?_, net.parse_sixteen ip size mapped, by simp⟩
      rw [readHost, if_neg (by decide), if_neg (by decide), if_pos rfl]
      exact read_ip_takes size _

theorem request_taken (short : net.parseIP host = none → host.length ≤ 255) (bound : port < 65536) :
    ∃ found, Takes Steady (readRequest net) (connectRequest net host port) (found, port) [] ∧
      net.parseIP found = net.parseIP host ∧ (net.parseIP host = none → found = host) := by
  obtain ⟨atyp, body, found, bytes, read, same⟩ := host_taken short
  refine ⟨found, ?_, same⟩
  have number : (UInt8.ofNat (port / 256)).toNat * 256 + (UInt8.ofNat (port % 256)).toNat = port := by
    simp only [UInt8.toNat_ofNat']
    omega
  have ports : Takes Steady
      (readFullServer 2 (requestError "read port: ") >>= fun portBuf =>
        pure (found, (portBuf.getD 0 0).toNat * 256 + (portBuf.getD 1 0).toNat))
      [UInt8.ofNat (port / 256), UInt8.ofNat (port % 256)] (found, port) [] := by
    refine read_full_last (by rfl) _ ?_
    simp only [List.getD_cons_zero, List.getD_cons_succ, number]
    exact takes_pure _
  have request : connectRequest net host port =
      [0x05, 0x01, 0x00, atyp] ++ (body ++ [UInt8.ofNat (port / 256), UInt8.ofNat (port % 256)]) := by
    rw [connectRequest, bytes]
    simp
  rw [request, readRequest]
  refine read_full_then (by rfl) _ ?_
  refine takes_refuse_then (by simp) _ ?_
  refine takes_refuse_then (by simp) _ ?_
  exact takes_bind read ports

theorem server_takes {creds : Option Credentials} {login : Bytes} (few : methods.length ≤ 255)
    (offered : wanted creds ∈ methods) (accepted : Takes Steady (authenticate creds) login () answer)
    (short : net.parseIP host = none → host.length ≤ 255) (bound : port < 65536) :
    ∃ found,
      Takes Steady (socks5HandshakeAuth net creds)
        ([0x05, UInt8.ofNat methods.length] ++ (methods ++ (login ++ connectRequest net host port))) (found, port)
        ([0x05, wanted creds] ++ answer) ∧
      net.parseIP found = net.parseIP host ∧ (net.parseIP host = none → found = host) := by
  obtain ⟨found, request, same⟩ := request_taken short bound
  refine ⟨found, ?_, same⟩
  have served : Takes Steady (authenticate creds >>= fun _ => readRequest net) (login ++ connectRequest net host port)
      (found, port) answer := by
    simpa using takes_bind (f := fun _ => readRequest net) accepted request
  rw [socks5HandshakeAuth]
  refine read_full_then (by rfl) _ ?_
  refine takes_refuse_then (by simp) _ ?_
  refine read_full_then (byte_count few).symm _ ?_
  rw [chooseMethod, if_pos offered]
  refine takes_send_then _ _ ?_
  exact served

end Serving

section Asking
variable {net : NetTexts} {next : Bytes → ClientAct B}

theorem read_all_then {b : B} (length : front.length = count) (what : String)
    (behind : Takes Silent (next front) u b v) : Takes Silent (readAll count what >>= next) (front ++ u) b v :=
  takes_recv_then fill_takes length _ behind

theorem read_all_last {b : B} (length : front.length = count) (what : String)
    (behind : Takes Silent (next front) [] b v) : Takes Silent (readAll count what >>= next) front b v :=
  takes_recv_last fill_takes length _ behind

theorem reply_taken : Takes Silent readReply [0x05, 0x00, 0x00, 0x01, 0, 0, 0, 0, 0, 0] () [] := by
  have bound : Takes Silent (skipBound 0x01 >>= fun _ => pure ()) [0, 0, 0, 0, 0, 0] () [] := by
    rw [skipBound, if_pos rfl]
    refine read_all_last (by rfl) _ ?_
    exact takes_pure ()
  change Takes Silent readReply ([0x05, 0x00, 0x00, 0x01] ++ [0, 0, 0, 0, 0, 0]) () []
  rw [readReply]
  refine read_all_then (by rfl) _ ?_
  refine takes_refuse_then (by simp) _ ?_
  refine takes_refuse_then (by simp) _ ?_
  exact bound

theorem client_takes (host : Bytes) (port : Nat) :
    Takes Silent (connectTo net host port) ([0x05, 0x00] ++ [0x05, 0x00, 0x00, 0x01, 0, 0, 0, 0, 0, 0]) ()
      ([0x05, 0x01, 0x00] ++ connectRequest net host port) := by
  rw [connectTo]
  refine takes_send_then _ _ ?_
  refine read_all_then (by rfl) _ ?_
  refine takes_refuse_then (by simp) _ ?_
  refine takes_send_last _ _ ?_
  exact reply_taken

end Asking

section Turns
variable {net : NetTexts}

theorem read_reply_grows : Grows readReply := by
  refine grows_bind (grows_recv _ _ _) fun reply => ?_
  refine grows_bind (grows_refuse _) fun _ => ?_
  refine grows_bind (grows_refuse _) fun _ => ?_
  refine grows_bind ?_ fun _ => grows_pure ()
  unfold skipBound
  split
  · exact grows_recv _ _ _
  · split
    · exact grows_bind (grows_recv _ _ _) fun _ => grows_recv _ _ _
    · split
      · exact grows_recv _ _ _
      · exact grows_throw _

theorem read_request_grows : Grows (readRequest net) := by
  refine grows_bind (grows_recv _ _ _) fun reqHeader => ?_
  refine grows_bind (grows_refuse _) fun _ => ?_
  refine grows_bind (grows_refuse _) fun _ => ?_
  refine grows_bind ?_ fun host => grows_bind (grows_recv _ _ _) fun _ => grows_pure _
  unfold readHost
  split
  · exact grows_bind (grows_recv _ _ _) fun _ => grows_pure _
  · split
    · exact grows_bind (grows_recv _ _ _) fun _ => grows_recv _ _ _
    · split
      · exact grows_bind (grows_recv _ _ _) fun _ => grows_pure _
      · exact grows_throw _

theorem client_greets (host : Bytes) (port : Nat) : Answers Silent (connectTo net host port) [] [0x05, 0x01, 0x00] := by
  refine answers_bind (u := []) (v := []) (takes_send _ _) (answers_grows ?_)
  refine grows_bind (grows_recv _ _ _) fun methodResp => ?_
  refine grows_bind (grows_refuse _) fun _ => ?_
  exact grows_bind (grows_send _ _) fun _ => read_reply_grows

theorem server_chooses : Answers Steady (socks5HandshakeAuth net none) [0x05, 0x01, 0x00] [0x05, 0x00] := by
  have chosen : Takes Steady (chooseMethod [0x00] (wanted none)) [] () [0x05, 0x00] := by
    rw [chooseMethod, if_pos (by decide)]
    exact takes_send _ _
  have rest : Grows (authenticate none >>= fun _ => readRequest net) :=
    grows_bind (grows_pure ()) fun _ => read_request_grows
  refine answers_bind (t := [0x05, 0x01]) (u := [0x00]) (s := []) (read_full_takes_front rfl _) ?_
  refine answers_refuse (by simp) _ ?_
  refine answers_bind (t := [0x00]) (u := []) (s := []) (read_full_takes_front rfl _) ?_
  exact answers_bind (u := []) (v := []) chosen (answers_grows rest)

theorem client_asks (host : Bytes) (port : Nat) :
    Answers Silent (connectTo net host port) [0x05, 0x00] ([0x05, 0x01, 0x00] ++ connectRequest net host port) := by
  have asked : Answers Silent (writeAll (connectRequest net host port) "write connect: " >>= fun _ => readReply) []
      (connectRequest net host port) := by
    have whole : Answers Silent (writeAll (connectRequest net host port) "write connect: " >>= fun _ => readReply)
        ([] ++ []) (connectRequest net host port ++ []) :=
      answers_bind (takes_send _ _) (answers_grows read_reply_grows)
    rwa [List.append_nil, List.append_nil] at whole
  refine answers_bind (t := []) (u := [0x05, 0x00]) (takes_send _ _) ?_
  refine answers_bind (t := [0x05, 0x00]) (u := []) (s := []) (takes_recv fill_takes rfl _) ?_
  exact answers_refuse (by simp) _ asked

end Turns

section Authentication
variable {net : NetTexts} {w w' : Channel} {failed : ReadError → ServerError} {creds : Credentials}

def login (creds : Credentials) : Bytes :=
  [0x01, UInt8.ofNat creds.user.length] ++ creds.user ++ [UInt8.ofNat creds.pass.length] ++ creds.pass

theorem read_full_ok (run : (readFullServer count failed).from w = (.ok got, w')) :
    got.length = count ∧ w.input.stream = got ++ w'.input.stream :=
  recv_ok (read_full_honest _ _) run

theorem read_counted_ok (run : (readCounted failed).from w = (.ok got, w')) :
    got.length ≤ 255 ∧ w.input.stream = UInt8.ofNat got.length :: (got ++ w'.input.stream) := by
  obtain ⟨n, mid, first, second⟩ := bind_ok run
  obtain ⟨one, front⟩ := read_full_ok first
  obtain ⟨count, back⟩ := read_full_ok second
  obtain ⟨b, rfl⟩ := List.length_eq_one_iff.1 one
  rw [List.getD_cons_zero] at count
  have bound := b.toNat_lt
  refine ⟨by omega, ?_⟩
  rw [front, back, count, UInt8.ofNat_toNat]
  rfl

theorem judge_ok {u : Unit} (run : (judge creds ver user pass).from w = (.ok u, w')) :
    (ver = 0x01 ∧ user = creds.user ∧ pass = creds.pass) ∧ w'.input = w.input := by
  unfold judge at run
  split at run
  · rename_i right
    exact ⟨right, send_ok run⟩
  · cases run

theorem check_password_ok {u : Unit} (run : (socks5CheckPassword creds).from w = (.ok u, w')) :
    (creds.user.length ≤ 255 ∧ creds.pass.length ≤ 255) ∧ w.input.stream = login creds ++ w'.input.stream := by
  obtain ⟨ver, w1, first, run⟩ := bind_ok run
  obtain ⟨user, w2, second, run⟩ := bind_ok run
  obtain ⟨pass, w3, third, run⟩ := bind_ok run
  obtain ⟨one, version⟩ := read_full_ok first
  obtain ⟨userShort, name⟩ := read_counted_ok second
  obtain ⟨passShort, password⟩ := read_counted_ok third
  obtain ⟨⟨verOne, rfl, rfl⟩, same⟩ := judge_ok run
  obtain ⟨b, rfl⟩ := List.length_eq_one_iff.1 one
  obtain rfl : b = 0x01 := verOne
  refine ⟨⟨userShort, passShort⟩, ?_⟩
  rw [version, name, password, same, login]
  simp

theorem choose_method_ok {u : Unit}
    (run : (chooseMethod methods want).from w = (.ok u, w')) : want ∈ methods ∧ w'.input = w.input := by
  unfold chooseMethod at run
  split at run
  · rename_i offered
    exact ⟨offered, send_ok run⟩
  · cases run

theorem server_ok {result : Bytes × Nat} (run : (socks5HandshakeAuth net (some creds)).from w = (.ok result, w')) :
    ∃ methods rest,
      w.input.stream = [0x05, UInt8.ofNat methods.length] ++ methods ++ login creds ++ rest ∧
        0x02 ∈ methods ∧ methods.length ≤ 255 ∧ creds.user.length ≤ 255 ∧ creds.pass.length ≤ 255 := by
  obtain ⟨header, w1, first, run⟩ := bind_ok run
  obtain ⟨version, run⟩ := refuse_ok run
  obtain ⟨methods, w2, second, run⟩ := bind_ok run
  obtain ⟨_, w3, third, run⟩ := bind_ok run
  obtain ⟨_, w4, fourth, run⟩ := bind_ok run
  obtain ⟨two, greeting⟩ := read_full_ok first
  obtain ⟨count, offers⟩ := read_full_ok second
  obtain ⟨offered, kept⟩ := choose_method_ok third
  obtain ⟨⟨userShort, passShort⟩, logged⟩ := check_password_ok fourth
  obtain ⟨b, n, rfl⟩ := List.length_eq_two.1 two
  obtain rfl : b = 0x05 := not_not.1 version
  replace count : methods.length = n.toNat := count
  have bound := n.toNat_lt
  refine ⟨methods, w4.input.stream, ?_, offered, by omega, userShort, passShort⟩
  rw [greeting, offers, ← kept, logged, count, UInt8.ofNat_toNat]
  simp

theorem login_taken (user : creds.user.length ≤ 255) (pass : creds.pass.length ≤ 255) :
    Takes Steady (authenticate (some creds)) (login creds) () [0x01, 0x00] := by
  have shape : login creds = [0x01] ++ (([UInt8.ofNat creds.user.length] ++ creds.user) ++
      (([UInt8.ofNat creds.pass.length] ++ creds.pass) ++ [])) := by
    simp [login]
  have counted : ∀ (s : Bytes) (failed : ReadError → ServerError), s.length ≤ 255 →
      Takes Steady (readCounted failed) ([UInt8.ofNat s.length] ++ s) s [] := by
    intro s failed short
    refine read_full_then (by rfl) _ ?_
    exact read_full_takes_front (byte_count short).symm _
  have judged : Takes Steady (judge creds 0x01 creds.user creds.pass) [] () [0x01, 0x00] := by
    rw [judge, if_pos ⟨rfl, rfl, rfl⟩]
    exact takes_send _ _
  rw [shape]
  refine read_full_then (by rfl) _ ?_
  refine takes_bind (s := []) (counted creds.user _ user) ?_
  exact takes_bind (s := []) (counted creds.pass _ pass) judged

theorem login_served (few : methods.length ≤ 255) (offered : 0x02 ∈ methods) (user : creds.user.length ≤ 255)
    (pass : creds.pass.length ≤ 255) (short : net.parseIP host = none → host.length ≤ 255) (bound : port < 65536) :
    ∃ found,
      Takes Steady (socks5HandshakeAuth net (some creds))
        ([0x05, UInt8.ofNat methods.length] ++ (methods ++ (login creds ++ connectRequest net host port)))
        (found, port) [0x05, 0x02, 0x01, 0x00] ∧
      net.parseIP found = net.parseIP host ∧ (net.parseIP host = none → found = host) :=
  server_takes few offered (login_taken user pass) short bound

end Authentication

section Agreement

/-- A handshake between the two ends. Each takes exactly what the other has written, and
    neither waits for what the other has not written yet. -/
structure Dialogue (net : NetTexts) (target host : Bytes) (port : Nat) (greeting request methodReply reply : Bytes) :
    Prop where
  client : Takes Silent (socks5Handshake net target) (methodReply ++ reply) () (greeting ++ request)
  server : Takes Steady (socks5HandshakeAuth net none) (greeting ++ request) (host, port) methodReply
  connected : Takes Steady (socks5SendReply 0x00) [] () reply
  greets : Answers Silent (socks5Handshake net target) [] greeting
  chooses : Answers Steady (socks5HandshakeAuth net none) greeting methodReply
  asks : Answers Silent (socks5Handshake net target) methodReply (greeting ++ request)

theorem handshakes_agree (net : NetTexts) :
    (∀ host port, port < 65536 →
      (91 ∉ host ∧ 93 ∉ host ↔
        ∃ target portStr, splitHostPort target = some (host, portStr) ∧ net.lookupPort portStr = some port)) ∧
    (∀ target host portStr port, splitHostPort target = some (host, portStr) → net.lookupPort portStr = some port →
      (net.parseIP host = none → host.length ≤ 255) →
      ∃ found greeting request methodReply reply,
        Dialogue net target found port greeting request methodReply reply ∧
          net.parseIP found = net.parseIP host ∧ (net.parseIP host = none → found = host)) ∧
    ∀ creds w result w', (socks5HandshakeAuth net (some creds)).from w = (.ok result, w') →
      ∃ methods rest,
        w.input.stream = [0x05, UInt8.ofNat methods.length] ++ methods ++ login creds ++ rest ∧
          0x02 ∈ methods ∧ methods.length ≤ 255 ∧ creds.user.length ≤ 255 ∧ creds.pass.length ≤ 255 := by
  refine ⟨?_, ?_, fun creds w result w' run => server_ok run⟩
  · intro host port bound
    constructor
    · intro plain
      have number : 58 ∉ itoa port ∧ 91 ∉ itoa port ∧ 93 ∉ itoa port :=
        ⟨itoa_clean port (by decide), itoa_clean port (by decide), itoa_clean port (by decide)⟩
      exact ⟨joinHostPort host (itoa port), itoa port, split_join plain number, net.lookup_decimal port bound⟩
    · rintro ⟨target, portStr, split, _⟩
      exact split_plain split
  · intro target host portStr port split lookup short
    have client : socks5Handshake net target = connectTo net host port := by
      simp only [socks5Handshake, split, lookup]
    have accepted : Takes Steady (authenticate none) [] () [] := takes_pure ()
    have offered : wanted none ∈ ([0x00] : Bytes) := by decide
    obtain ⟨found, served, same⟩ :=
      server_takes (by decide) offered accepted short (net.lookup_bound portStr port lookup)
    refine ⟨found, [0x05, 0x01, 0x00], connectRequest net host port, [0x05, 0x00],
      [0x05, 0x00, 0x00, 0x01, 0, 0, 0, 0, 0, 0], ?_, same⟩
    refine ⟨?_, served, takes_send_anyway _, ?_, server_chooses, ?_⟩
    · rw [client]
      exact client_takes host port
    · rw [client]
      exact client_greets host port
    · rw [client]
      exact client_asks host port

section Spellings

def groups : Bytes → List Bytes
  | hi :: lo :: rest => hexBytes [hi, lo] :: groups rest
  | _ => []

def readGroup (p : Bytes) : Bytes :=
  [UInt8.ofNat ((parseUint 16 p).getD 0 / 256), UInt8.ofNat ((parseUint 16 p).getD 0)]

def readGroups (s : Bytes) : Bytes := (s.splitOn 58).flatMap readGroup

theorem read_group (hi lo : UInt8) : readGroup (hexBytes [hi, lo]) = [hi, lo] := by
  have digit : ∀ d < 16, digitValue (hexDigit d) = some d := by decide
  have upper := hi.toNat_lt
  have lower := lo.toNat_lt
  have value : parseUint 16 (hexBytes [hi, lo]) = some (hi.toNat * 256 + lo.toNat) := by
    simp only [parseUint, hexBytes, List.flatMap_cons, List.flatMap_nil, List.cons_append, List.nil_append,
      reduceCtorEq, ↓reduceIte, parseDigits, digit (hi.toNat / 16) (by omega), digit (hi.toNat % 16) (by omega),
      digit (lo.toNat / 16) (by omega), digit (lo.toNat % 16) (by omega)]
    grind
  have front : (hi.toNat * 256 + lo.toNat) / 256 = hi.toNat := by omega
  have back : UInt8.ofNat (hi.toNat * 256 + lo.toNat) = lo := UInt8.toNat.inj (by simp)
  simp [readGroup, value, front, back]

theorem groups_spell (ip : Bytes) (even : 2 ∣ ip.length) :
    (groups ip).flatMap readGroup = ip ∧ ∀ p ∈ groups ip, 58 ∉ p := by
  have digit : ∀ n < 256, 58 ≠ hexDigit (n / 16) ∧ 58 ≠ hexDigit (n % 16) := by decide +kernel
  fun_induction groups ip with
  | case1 hi lo rest ih =>
    obtain ⟨flat, clean⟩ := ih ((Nat.dvd_add_left (Nat.dvd_refl 2)).1 even)
    refine ⟨by simp [read_group, flat], List.forall_mem_cons.2 ⟨?_, clean⟩⟩
    simp [hexBytes, digit hi.toNat hi.toNat_lt, digit lo.toNat lo.toNat_lt]
  | case2 ip short =>
    match ip, even with
    | [], _ => simp
    | [b], even => exact absurd even (by simp)
    | hi :: lo :: rest, _ => exact absurd rfl (short hi lo rest)

theorem groups_read (hi lo : UInt8) (ip : Bytes) (even : 2 ∣ ip.length) :
    readGroups ([58].intercalate (groups (hi :: lo :: ip))) = hi :: lo :: ip := by
  obtain ⟨flat, clean⟩ := groups_spell (hi :: lo :: ip) ((Nat.dvd_add_left (Nat.dvd_refl 2)).2 even)
  rw [readGroups, List.splitOn_intercalate 58 clean (by simp [groups]), flat]

end Spellings

/-- Addresses as package net prints them, but that no groups of an IPv6 address are left out. -/
def netTexts : NetTexts where
  parseIP s :=
    if 58 ∈ s then
      if (readGroups s).length = 16 ∧ [58].intercalate (groups (readGroups s)) = s then some (readGroups s) else none
    else if (readDotted s).length = 4 ∧ dottedText (readDotted s) = s then some (v4InV6 ++ readDotted s)
    else none
  ipString ip :=
    match to4 ip with
    | some v4 => dottedText v4
    | none => [58].intercalate (groups ip)
  lookupPort s := parseUintSized 10 16 s
  parse_length := by
    grind [v4InV6]
  parse_four a four := by
    match a, four with
    | [b, c, d, e], _ =>
      have plain : 58 ∉ dottedText [b, c, d, e] := by
        simp [dottedText, List.intercalate_cons_cons, itoa_clean _ (show (58 : UInt8) < 48 ∨ 57 < 58 by decide)]
      simp [to4, plain, dotted_read (a := [b, c, d, e])]
  parse_sixteen ip sixteen other := by
    match ip, sixteen with
    | hi :: lo :: hi' :: lo' :: rest, sixteen =>
      have colon : 58 ∈ [58].intercalate (groups (hi :: lo :: hi' :: lo' :: rest)) := by
        simp [groups, List.intercalate_cons_cons]
      have read := groups_read hi lo (hi' :: lo' :: rest) (by grind)
      simp [other, colon, read, sixteen]
  lookup_bound := by
    intro s port parsed
    exact (parse_uint_sized_iff.1 parsed).2.2
  lookup_decimal := by
    intro port bound
    exact parse_uint_sized_itoa bound

def linkLocal : Bytes := text "fe80:0000:0000:0000:0000:0000:0000:0001"

def visitor : Credentials := ⟨text "u", text "p"⟩

theorem hosts_and_login_agree :
    (∃ greeting request methodReply reply,
      Dialogue netTexts (text "a.b:80") (text "a.b") 80 greeting request methodReply reply) ∧
    (∃ found greeting request methodReply reply,
      Dialogue netTexts (91 :: linkLocal ++ text "]:80") found 80 greeting request methodReply reply ∧
        netTexts.parseIP found = some [0xFE, 0x80, 0, 0, 0, 0, 0, 0, 0, 0, 0, 0, 0, 0, 0, 1]) ∧
    ∃ w result w', (socks5HandshakeAuth netTexts (some visitor)).from w = (.ok result, w') ∧
      ∃ methods rest,
        w.input.stream = [0x05, UInt8.ofNat methods.length] ++ methods ++ login visitor ++ rest ∧ 0x02 ∈ methods := by
  obtain ⟨_, agree, exact⟩ := handshakes_agree netTexts
  have lookup : netTexts.lookupPort (text "80") = some 80 := by decide
  refine ⟨?_, ?_, ?_⟩
  · have split : splitHostPort (text "a.b:80") = some (text "a.b", text "80") := by decide
    have name : netTexts.parseIP (text "a.b") = none := by decide
    obtain ⟨found, greeting, request, methodReply, reply, dialogue, _, same⟩ :=
      agree _ _ _ _ split lookup (fun _ => by decide)
    rw [same name] at dialogue
    exact ⟨greeting, request, methodReply, reply, dialogue⟩
  · have split : splitHostPort (91 :: linkLocal ++ text "]:80") = some (linkLocal, text "80") := by decide
    obtain ⟨found, greeting, request, methodReply, reply, dialogue, address, _⟩ :=
      agree _ _ _ _ split lookup (fun _ => by decide)
    exact ⟨found, greeting, request, methodReply, reply, dialogue, address.trans (by decide)⟩
  · have offered : 0x02 ∈ ([0x02] : Bytes) := by decide
    have user : visitor.user.length ≤ 255 := by decide
    have pass : visitor.pass.length ≤ 255 := by decide
    have short : netTexts.parseIP (text "a.b") = none → (text "a.b").length ≤ 255 := fun _ => by decide
    have bound : 80 < 65536 := by decide
    obtain ⟨found, served, _⟩ := login_served (by decide) offered user pass short bound
    let sent := [0x05, 0x01] ++ ([0x02] ++ (login visitor ++ connectRequest netTexts (text "a.b") 80))
    let w : Channel := ⟨⟨[(sent, none)], .eof⟩, [], []⟩
    have carries : Carries Steady w (sent ++ []) := by
      refine ⟨?_, ?_, ?_⟩
      · intro piece member
        cases member
      · rfl
      · intro failed member
        cases member
    obtain ⟨w', run, _⟩ := served w [] carries
    obtain ⟨methods, rest, stream, two, _⟩ := exact visitor w _ w' run
    exact ⟨w, _, w', run, methods, rest, stream, two⟩

end Agreement

end Socks5Handshakes
