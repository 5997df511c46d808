import RootShell.HostRules

/-!
The host of a URL as net/url reads it, with the checks on the rest of the text that make the whole
fail. Texts of IPv6 addresses are those netip.ParseAddr accepts. Whether a host may have colons
outside of brackets depends on the settings of the program (urlstrictcolons) and is a parameter.
-/
namespace UrlHosts
open ByteLines ByteText
open HostRules (cutLast cut_last_eq cut_last_behind)

variable {b sep c : UInt8} {s scheme address host port left right : Bytes}

section Bytes

def isLetter (b : UInt8) : Bool := (97 ≤ b && b ≤ 122) || (65 ≤ b && b ≤ 90)

def isDigit (b : UInt8) : Bool := 48 ≤ b && b ≤ 57

def isHex (b : UInt8) : Bool := isDigit b || (97 ≤ b && b ≤ 102) || (65 ≤ b && b ≤ 70)

def unhex (b : UInt8) : UInt8 :=
  if isDigit b then b - 48 else if 97 ≤ b && b ≤ 102 then b - 87 else if 65 ≤ b && b ≤ 70 then b - 55 else 0

def cutByte (sep : UInt8) (s : Bytes) : Bytes × Bytes := (s.takeWhile (· != sep), (s.dropWhile (· != sep)).tail)

def index (sub s : Bytes) : Option Nat := s.tails.findIdx? fun t => sub.isPrefixOf t

def lowerByte (b : UInt8) : UInt8 := if 65 ≤ b && b ≤ 90 then b + 32 else b

end Bytes

section Addresses

def isOctet (s : Bytes) : Bool :=
  s.all isDigit && (s.length == 1 || (s.head? != some 48 && (parseUint 10 s).any (· ≤ 255)))

def isIPv4 (s : Bytes) : Bool := (s.splitOn 46).length == 4 && (s.splitOn 46).all isOctet

def isGroup (s : Bytes) : Bool := s != [] && s.length ≤ 4 && s.all isHex

def groupCount : List Bytes → Option Nat
  | [] => some 0
  | [last] => if isGroup last then some 1 else if isIPv4 last then some 2 else none
  | g :: gs => if isGroup g then (groupCount gs).map (· + 1) else none

def sideCount (s : Bytes) : Option Nat := if s = [] then some 0 else groupCount (s.splitOn 58)

def cutEllipsis : Bytes → Option (Bytes × Bytes)
  | 58 :: 58 :: s => some ([], s)
  | b :: s => (cutEllipsis s).map fun p => (b :: p.1, p.2)
  | [] => none

/-- An IPv6 address without a zone: eight groups, or fewer around a double colon. An IPv4
    address stands at the end of the whole only. -/
def isIPv6 (s : Bytes) : Bool :=
  match cutEllipsis s with
  | none => groupCount (s.splitOn 58) == some 8
  | some (left, right) =>
    match sideCount left, sideCount right with
    | some m, some n => m + n ≤ 7 && left.all (· != 46)
    | _, _ => false

def isLiteral (s : Bytes) : Bool :=
  if 37 ∈ s then isIPv6 (cutByte 37 s).1 && (cutByte 37 s).2 != [] else isIPv6 s

end Addresses

section Code

inductive UrlError
  | controlCharacter
  | missingScheme
  | colonInPath
  | missingBracket
  | invalidLiteral
  | invalidPort (colonPort : Bytes)
  | invalidEscape (s : Bytes)
  | invalidHostByte (b : UInt8)
  | invalidUserinfo
  deriving DecidableEq

inductive Mode
  | host
  | zone
  | path
  | userPassword
  | fragment
  deriving DecidableEq

/-- Of a host or a zone; the other parts keep whatever they are made of. -/
def shouldEscape (b : UInt8) : Bool :=
  !(isLetter b || isDigit b || (text "!$&'()*+,;=:[]<>\"-_.~").contains b)

def escapeError (mode : Mode) (h l : UInt8) : Bool :=
  (mode = .host && unhex h < 8 && !(h == 50 && l == 53)) ||
  (mode = .zone && !(h == 50 && l == 53) && unhex h * 16 + unhex l != 32 && shouldEscape (unhex h * 16 + unhex l))

def unescape (mode : Mode) : Bytes → Except UrlError Bytes
  | [] => .ok []
  | [37] => .error (.invalidEscape [37])
  | [37, h] => .error (.invalidEscape [37, h])
  | 37 :: h :: l :: s =>
    if !(isHex h && isHex l) || escapeError mode h l then .error (.invalidEscape [37, h, l])
    else (unescape mode s).map fun t => (unhex h * 16 + unhex l) :: t
  | b :: s =>
    if (mode = .host || mode = .zone) && b < 0x80 && shouldEscape b then .error (.invalidHostByte b)
    else (unescape mode s).map fun t => b :: t

def validOptionalPort : Bytes → Bool
  | [] => true
  | b :: port => b == 58 && port.all isDigit

def parseBracketed (rest : Bytes) : Except UrlError Bytes :=
  match cutLast [93] rest with
  | none => .error .missingBracket
  | some (hostname, colonPort) =>
    if !validOptionalPort colonPort then .error (.invalidPort colonPort)
    else do
      let port ← unescape .host colonPort
      let name ←
        match index (text "%25") hostname with
        | none => unescape .host hostname
        | some zoneIdx => do
          let front ← unescape .host (hostname.take zoneIdx)
          let zone ← unescape .zone (hostname.drop zoneIdx)
          pure (front ++ zone)
      if isLiteral name then pure (91 :: name ++ 93 :: port) else .error .invalidLiteral

/-- What has to be a port: the text from the first colon on, or only from the last one. -/
def colonPort (strictColons : Bool) (host : Bytes) : Bytes :=
  if strictColons then host.dropWhile (· != 58)
  else match cutLast [58] host with
  | none => []
  | some (_, port) => 58 :: port

def parseHost (strictColons : Bool) (host : Bytes) : Except UrlError Bytes :=
  if 91 ∈ host.tail then .error .invalidLiteral
  else if host.head? = some 91 then parseBracketed host.tail
  else if !validOptionalPort (colonPort strictColons host) then .error (.invalidPort (colonPort strictColons host))
  else unescape .host host

def validUserinfo (s : Bytes) : Bool :=
  s.all fun b => isLetter b || isDigit b || (text "-._:~!$&'()*+,;=%@").contains b

def parseAuthority (strictColons : Bool) (authority : Bytes) : Except UrlError Bytes :=
  match cutLast [64] authority with
  | none => parseHost strictColons authority
  | some (userinfo, host) => do
    let host ← parseHost strictColons host
    if !validUserinfo userinfo then .error .invalidUserinfo
    else do
      let _ ← unescape .userPassword (cutByte 58 userinfo).1
      let _ ← unescape .userPassword (cutByte 58 userinfo).2
      pure host

def schemeByte (b : UInt8) : Bool := isLetter b || isDigit b || b == 43 || b == 45 || b == 46

def getScheme (raw : Bytes) : Except UrlError (Bytes × Bytes) :=
  if raw.head? = some 58 then .error .missingScheme
  else if raw.head?.any isLetter then
    match raw.dropWhile schemeByte with
    | 58 :: rest => .ok (raw.takeWhile schemeByte, rest)
    | _ => .ok ([], raw)
  else .ok ([], raw)

structure Url where
  scheme : Bytes
  host : Bytes
  deriving DecidableEq

def withoutQuery (rest : Bytes) : Bytes :=
  if rest.getLast? = some 63 ∧ rest.count 63 = 1 then rest.dropLast else (cutByte 63 rest).1

def parseRest (strictColons : Bool) (scheme rest : Bytes) : Except UrlError Url :=
  if rest.head? ≠ some 47 ∧ scheme ≠ [] then .ok ⟨scheme, []⟩
  else if rest.head? ≠ some 47 ∧ 58 ∈ (cutByte 47 rest).1 then .error .colonInPath
  else if (scheme ≠ [] ∨ ¬ text "///" <+: rest) ∧ text "//" <+: rest then do
    let authority := (rest.drop 2).takeWhile (· != 47)
    let host ← parseAuthority strictColons authority
    let _ ← unescape .path ((rest.drop 2).dropWhile (· != 47))
    pure ⟨scheme, host⟩
  else do
    let _ ← unescape .path rest
    pure ⟨scheme, []⟩

def parseRaw (strictColons : Bool) (raw : Bytes) : Except UrlError Url :=
  if raw.any fun b => b < 0x20 || b == 0x7F then .error .controlCharacter
  else if raw = text "*" then .ok ⟨[], []⟩
  else do
    let (scheme, rest) ← getScheme raw
    parseRest strictColons (scheme.map lowerByte) (withoutQuery rest)

def parse (strictColons : Bool) (raw : Bytes) : Except UrlError Url := do
  let url ← parseRaw strictColons (cutByte 35 raw).1
  let _ ← unescape .fragment (cutByte 35 raw).2
  pure url

end Code

section Plain

def addressByte (b : UInt8) : Bool :=
  isLetter b || isDigit b || [45, 95, 46, 58, 91, 93].contains b || 0x80 ≤ b

theorem address_absent (other : addressByte c = false) (plain : ∀ b ∈ s, addressByte b = true) : c ∉ s := by
  intro member
  rw [plain c member] at other
  cases other

theorem address_kept (plain : addressByte b = true) : (b < 0x80 && shouldEscape b) = false := by
  have marks : ∀ c ∈ [(45 : UInt8), 95, 46, 58, 91, 93], shouldEscape c = false := by decide +kernel
  unfold addressByte at plain
  simp only [Bool.or_eq_true] at plain
  rcases plain with ((letter | digit) | mark) | large
  · simp [shouldEscape, letter]
  · simp [shouldEscape, digit]
  · rw [marks b (by simpa using mark), Bool.and_false]
  · rw [decide_eq_false (UInt8.not_lt.2 (of_decide_eq_true large)), Bool.false_and]

theorem unescape_plain (plain : ∀ b ∈ s, addressByte b = true) (mode : Mode) : unescape mode s = .ok s := by
  induction s with
  | nil => rfl
  | cons b s ih =>
    rw [List.forall_mem_cons] at plain
    have percent : b ≠ 37 := by
      rintro rfl
      exact absurd plain.1 (by decide)
    have kept : ((mode = .host || mode = .zone) && b < 0x80 && shouldEscape b) = false := by
      rw [Bool.and_assoc, address_kept plain.1, Bool.and_false]
    rw [unescape.eq_5 _ _ _ (fun same _ => percent same) (fun _ same _ => percent same)
      (fun _ _ _ same _ => percent same), kept, ih plain.2]
    rfl

theorem cut_byte_absent (absent : sep ∉ s) : cutByte sep s = (s, []) := by
  have all := other_bytes absent
  rw [cutByte, List.takeWhile_eq_self_iff.2 all, List.dropWhile_eq_nil_iff.2 all]
  rfl

theorem cut_last_absent (absent : sep ∉ s) : cutLast [sep] s = none := by
  cases cut : cutLast [sep] s with
  | none => rfl
  | some parts =>
    obtain ⟨front, back⟩ := parts
    refine absurd ?_ absent
    rw [cut_last_eq cut]
    simp

theorem last_occurrence (member : sep ∈ s) : ∃ front back, s = front ++ sep :: back ∧ sep ∉ back := by
  obtain ⟨x, y, reversed, absent⟩ := List.eq_append_cons_of_mem (List.mem_reverse.2 member)
  refine ⟨y.reverse, x.reverse, ?_, by simpa using absent⟩
  rw [← s.reverse_reverse, reversed]
  simp

theorem letter_address (letter : isLetter b = true) : addressByte b = true := by simp [addressByte, letter]

theorem address_visible (plain : addressByte b = true) : (b < 0x20 || b == 0x7F) = false := by
  have visible : ∀ b, addressByte b = true → (b < 0x20 || b == 0x7F) = false := every_byte (by decide +kernel)
  exact visible b plain

end Plain

section Authorities
variable {strictColons : Bool}

theorem without_query_plain (absent : 63 ∉ address) : withoutQuery address = address := by
  have last : address.getLast? ≠ some 63 := fun same => absent (List.mem_of_getLast? same)
  rw [withoutQuery, if_neg fun both => last both.1, cut_byte_absent absent]

theorem get_scheme_letters (some : scheme ≠ []) (letters : ∀ b ∈ scheme, isLetter b = true) (rest : Bytes) :
    getScheme (scheme ++ 58 :: rest) = .ok (scheme, rest) := by
  obtain ⟨c, tail, rfl⟩ := List.exists_cons_of_ne_nil some
  have first : isLetter c = true := letters c List.mem_cons_self
  have other : c ≠ 58 := by
    rintro rfl
    exact absurd first (by decide)
  have scheme : ∀ b ∈ c :: tail, schemeByte b = true := fun b member => by simp [schemeByte, letters b member]
  have after : (c :: tail ++ 58 :: rest).dropWhile schemeByte = 58 :: rest := by
    rw [List.dropWhile_append_of_pos scheme, List.dropWhile_cons_of_neg (by decide)]
  have before : (c :: tail ++ 58 :: rest).takeWhile schemeByte = c :: tail := by
    rw [List.takeWhile_append_of_pos scheme, List.takeWhile_cons_of_neg (by decide), List.append_nil]
  have front : ¬ (c :: tail ++ 58 :: rest).head? = Option.some 58 := fun same => other (Option.some.inj same)
  rw [getScheme, if_neg front, if_pos (by simpa using first), after, before]
  rfl

theorem parse_rest_address (some : scheme ≠ []) (plain : ∀ b ∈ address, addressByte b = true) :
    parseRest strictColons scheme (47 :: 47 :: address) = (parseHost strictColons address).map (Url.mk scheme) := by
  have slash : 47 ∉ address := address_absent (by decide) plain
  have at_sign : 64 ∉ address := address_absent (by decide) plain
  have all := other_bytes slash
  have slashes : text "//" <+: 47 :: 47 :: address := ⟨address, rfl⟩
  rw [parseRest, if_neg (by simp), if_neg (by simp), if_pos ⟨Or.inl some, slashes⟩]
  simp only [List.drop_succ_cons, List.drop_zero, List.takeWhile_eq_self_iff.2 all, List.dropWhile_eq_nil_iff.2 all,
    parseAuthority, cut_last_absent at_sign]
  cases parseHost strictColons address <;> rfl

theorem url_bytes (letters : ∀ b ∈ scheme, isLetter b = true) (plain : ∀ b ∈ address, addressByte b = true) :
    ∀ b ∈ scheme ++ 58 :: 47 :: 47 :: address, b = 47 ∨ addressByte b = true := by
  intro b member
  simp only [List.mem_append, List.mem_cons] at member
  rcases member with letter | rfl | rfl | rfl | inside
  · exact Or.inr (letter_address (letters b letter))
  · exact Or.inr (by decide)
  · exact Or.inl rfl
  · exact Or.inl rfl
  · exact Or.inr (plain b inside)

theorem parse_raw_address (some : scheme ≠ []) (letters : ∀ b ∈ scheme, isLetter b = true)
    (plain : ∀ b ∈ address, addressByte b = true) :
    parseRaw strictColons (scheme ++ 58 :: 47 :: 47 :: address) =
      (parseHost strictColons address).map (Url.mk (scheme.map lowerByte)) := by
  have control : ¬ ((scheme ++ 58 :: 47 :: 47 :: address).any fun b => b < 0x20 || b == 0x7F) = true := by
    rw [Bool.not_eq_true, List.any_eq_false]
    intro b member
    rcases url_bytes letters plain b member with rfl | inside
    · decide
    · rw [address_visible inside]
      exact Bool.false_ne_true
  have star : scheme ++ 58 :: 47 :: 47 :: address ≠ text "*" := by
    intro same
    have length := congrArg List.length same
    rw [List.length_append, List.length_cons, List.length_cons, show (text "*").length = 1 from rfl] at length
    omega
  have query : 63 ∉ 47 :: 47 :: address := by
    have absent : 63 ∉ address := address_absent (by decide) plain
    simpa using absent
  rw [parseRaw, if_neg control, if_neg star, get_scheme_letters some letters]
  change parseRest strictColons (scheme.map lowerByte) (withoutQuery (47 :: 47 :: address)) = _
  rw [without_query_plain query, parse_rest_address (by simpa using some) plain]

theorem parse_address (some : scheme ≠ []) (letters : ∀ b ∈ scheme, isLetter b = true)
    (plain : ∀ b ∈ address, addressByte b = true) :
    parse strictColons (scheme ++ text "://" ++ address) =
      (parseHost strictColons address).map (Url.mk (scheme.map lowerByte)) := by
  have shape : scheme ++ text "://" ++ address = scheme ++ 58 :: 47 :: 47 :: address := by
    rw [List.append_assoc]
    rfl
  have fragment : 35 ∉ scheme ++ 58 :: 47 :: 47 :: address := by
    intro member
    rcases url_bytes letters plain 35 member with same | same
    · exact absurd same (by decide)
    · exact absurd same (by decide)
  rw [shape, parse, cut_byte_absent fragment, parse_raw_address some letters plain]
  cases parseHost strictColons address <;> rfl

end Authorities

section Literals
theorem split_on_bytes {P : UInt8 → Prop} (pieces : ∀ piece ∈ s.splitOn sep, ∀ b ∈ piece, P b) :
    ∀ b ∈ s, b = sep ∨ P b := by
  induction s using separated_induct sep with
  | plain s absent =>
    rw [List.splitOn_eq_singleton absent, List.forall_mem_singleton] at pieces
    exact fun b member => Or.inr (pieces b member)
  | cut x y absent ih =>
    rw [List.splitOn_append_cons_self, List.splitOn_eq_singleton absent, List.singleton_append,
      List.forall_mem_cons] at pieces
    intro b member
    rw [List.mem_append, List.mem_cons] at member
    rcases member with front | same | back
    · exact Or.inr (pieces.1 b front)
    · exact Or.inl same
    · exact ih pieces.2 b back

def groupByte (b : UInt8) : Prop := b = 46 ∨ isHex b = true

theorem ipv4_bytes (address : isIPv4 s = true) : ∀ b ∈ s, groupByte b := by
  rw [isIPv4, Bool.and_eq_true, List.all_eq_true] at address
  refine split_on_bytes fun octet member b inside => ?_
  have digits := address.2 octet member
  rw [isOctet, Bool.and_eq_true, List.all_eq_true] at digits
  simp [isHex, digits.1 b inside]

theorem group_bytes (group : isGroup s = true) : ∀ b ∈ s, groupByte b := by
  rw [isGroup, Bool.and_eq_true, List.all_eq_true] at group
  exact fun b member => Or.inr (group.2 b member)

theorem group_count_bytes {groups : List Bytes} {n : Nat} (count : groupCount groups = some n) :
    n ≤ groups.length + 1 ∧ ∀ g ∈ groups, ∀ b ∈ g, groupByte b := by
  induction groups using groupCount.induct generalizing n with
  | case1 =>
    cases count
    simp
  | case2 last group =>
    rw [groupCount, if_pos group] at count
    cases count
    exact ⟨by simp, List.forall_mem_singleton.2 (group_bytes group)⟩
  | case3 last other address =>
    rw [groupCount, if_neg other, if_pos address] at count
    cases count
    exact ⟨by simp, List.forall_mem_singleton.2 (ipv4_bytes address)⟩
  | case4 last other neither =>
    rw [groupCount, if_neg other, if_neg neither] at count
    cases count
  | case5 g gs more group ih =>
    rw [groupCount.eq_3 _ _ more, if_pos group] at count
    obtain ⟨m, counted, rfl⟩ := Option.map_eq_some_iff.1 count
    obtain ⟨bound, bytes⟩ := ih counted
    exact ⟨by simpa using bound, List.forall_mem_cons.2 ⟨group_bytes group, bytes⟩⟩
  | case6 g gs more other =>
    rw [groupCount.eq_3 _ _ more, if_neg other] at count
    cases count

theorem side_bytes {n : Nat} (count : sideCount s = some n) : ∀ b ∈ s, b = 58 ∨ groupByte b := by
  unfold sideCount at count
  split at count
  · rename_i empty
    simp [empty]
  · exact split_on_bytes (group_count_bytes count).2

theorem cut_ellipsis_eq (cut : cutEllipsis s = some (left, right)) : s = left ++ 58 :: 58 :: right := by
  induction s using cutEllipsis.induct generalizing left with
  | case1 s =>
    cases cut
    rfl
  | case2 b s other ih =>
    rw [cutEllipsis.eq_2 _ _ other] at cut
    obtain ⟨⟨front, back⟩, inner, parts⟩ := Option.map_eq_some_iff.1 cut
    cases parts
    rw [ih inner]
    rfl
  | case3 => cases cut

theorem ipv6_bytes (address : isIPv6 s = true) : (∀ b ∈ s, b = 58 ∨ groupByte b) ∧ 2 ≤ s.count 58 := by
  unfold isIPv6 at address
  split at address
  · obtain ⟨bound, bytes⟩ := group_count_bytes (eq_of_beq address)
    rw [split_on_length] at bound
    exact ⟨split_on_bytes bytes, by omega⟩
  · rename_i left right cut
    have whole := cut_ellipsis_eq cut
    split at address
    · rename_i m n counted counted'
      have colons : s.count 58 = left.count 58 + (right.count 58 + 1 + 1) := by simp [whole]
      refine ⟨?_, by omega⟩
      intro b member
      rw [whole, List.mem_append, List.mem_cons, List.mem_cons] at member
      rcases member with front | same | same | back
      · exact side_bytes counted b front
      · exact Or.inl same
      · exact Or.inl same
      · exact side_bytes counted' b back
    · cases address

theorem ipv6_colon (address : isIPv6 s = true) : 58 ∈ s := by
  have colons := (ipv6_bytes address).2
  exact List.count_pos_iff.1 (by omega)

theorem digit_address (digit : isDigit b = true) : addressByte b = true := by simp [addressByte, digit]

theorem hex_address (hex : isHex b = true) : addressByte b = true := by
  have all : ∀ b, isHex b = true → addressByte b = true := every_byte (by decide +kernel)
  exact all b hex

theorem ipv6_absent (address : isIPv6 s = true) (colon : c ≠ 58) (dot : c ≠ 46) (hex : isHex c = false) : c ∉ s := by
  intro member
  rcases (ipv6_bytes address).1 c member with same | same | same
  · exact colon same
  · exact dot same
  · rw [same] at hex
    cases hex

theorem ipv6_plain (address : isIPv6 s = true) : ∀ b ∈ s, addressByte b = true := by
  intro b member
  rcases (ipv6_bytes address).1 b member with rfl | rfl | hex
  · decide
  · decide
  · exact hex_address hex

end Literals

section Hosts
variable {strictColons : Bool}

theorem valid_port_plain (valid : validOptionalPort port = true) : ∀ b ∈ port, addressByte b = true := by
  cases port with
  | nil => simp
  | cons c digits =>
    rw [validOptionalPort, Bool.and_eq_true, List.all_eq_true] at valid
    obtain ⟨colon, all⟩ := valid
    rw [eq_of_beq colon]
    exact List.forall_mem_cons.2 ⟨by decide, fun b member => digit_address (all b member)⟩

theorem valid_port_absent (valid : validOptionalPort port = true) (colon : c ≠ 58)
    (digit : isDigit c = false) : c ∉ port := by
  cases port with
  | nil => simp
  | cons b digits =>
    rw [validOptionalPort, Bool.and_eq_true, List.all_eq_true] at valid
    intro member
    rcases List.mem_cons.1 member with rfl | inside
    · exact colon (eq_of_beq valid.1)
    · rw [valid.2 c inside] at digit
      cases digit

theorem parse_host_bracketed (address : isIPv6 host = true) (valid : validOptionalPort port = true) :
    parseHost strictColons (91 :: host ++ 93 :: port) = .ok (91 :: host ++ 93 :: port) := by
  have opening : 91 ∉ host ++ 93 :: port := by
    have first : 91 ∉ host := ipv6_absent address (by decide) (by decide) (by decide)
    have second : 91 ∉ port := valid_port_absent valid (by decide) (by decide)
    simp [first, second]
  have closing : 93 ∉ port := valid_port_absent valid (by decide) (by decide)
  have percent : 37 ∉ host := ipv6_absent address (by decide) (by decide) (by decide)
  have zone : index (text "%25") host = none := by
    rw [index, List.findIdx?_eq_none_iff]
    intro t member
    rw [Bool.eq_false_iff]
    intro starts
    obtain ⟨rest, rfl⟩ := List.isPrefixOf_iff_prefix.1 starts
    exact percent (((List.mem_tails _ _).1 member).subset (List.mem_append_left _ (by decide)))
  have literal : isLiteral host = true := by rw [isLiteral, if_neg percent, address]
  rw [List.cons_append, parseHost, List.tail_cons, if_neg opening, if_pos (by rfl), parseBracketed,
    cut_last_behind closing host]
  simp only [valid, unescape_plain (valid_port_plain valid), zone, unescape_plain (ipv6_plain address)]
  change (if isLiteral host = true then _ else _) = _
  rw [if_pos literal]
  rfl

theorem parse_host_open (opening : 91 ∉ host) (plain : ∀ b ∈ host, addressByte b = true) :
    parseHost strictColons host =
      if validOptionalPort (colonPort strictColons host) then .ok host
      else .error (.invalidPort (colonPort strictColons host)) := by
  have first : host.head? ≠ some 91 := fun starts => opening (List.mem_of_head? starts)
  rw [parseHost, if_neg fun later => opening (List.mem_of_mem_tail later), if_neg first, unescape_plain plain]
  cases validOptionalPort (colonPort strictColons host) <;> rfl

theorem colon_port_behind (absent : 58 ∉ host) (valid : validOptionalPort port = true) :
    colonPort strictColons (host ++ port) = port := by
  cases port with
  | nil =>
    rw [List.append_nil, colonPort, List.dropWhile_eq_nil_iff.2 (other_bytes absent), cut_last_absent absent]
    cases strictColons <;> rfl
  | cons c digits =>
    rw [validOptionalPort, Bool.and_eq_true, List.all_eq_true] at valid
    obtain ⟨colon, all⟩ := valid
    have clean : 58 ∉ digits := fun member => absurd (all 58 member) (by decide)
    rw [eq_of_beq colon, colonPort, drop_while_until absent, cut_last_behind clean]
    cases strictColons <;> rfl

def DecimalEnd (s : Bytes) : Prop := ∃ front back, s = front ++ 58 :: back ∧ back.all isDigit = true

theorem bare_host_iff (colons : 2 ≤ host.count 58) :
    validOptionalPort (colonPort strictColons host) = true ↔ strictColons = false ∧ DecimalEnd host := by
  cases strictColons with
  | true =>
    have member : 58 ∈ host := List.count_pos_iff.1 (by omega)
    obtain ⟨front, rest, rfl, absent⟩ := List.eq_append_cons_of_mem member
    have later : 58 ∈ rest := by
      rw [List.count_append, List.count_cons_self, List.count_eq_zero_of_not_mem absent] at colons
      exact List.count_pos_iff.1 (by omega)
    have bad : rest.all isDigit = false := List.all_eq_false.2 ⟨58, later, by decide⟩
    simp [colonPort, drop_while_until absent, validOptionalPort, bad]
  | false =>
    constructor
    · intro valid
      refine ⟨rfl, ?_⟩
      unfold colonPort at valid
      cases cut : cutLast [58] host with
      | none =>
        have member : 58 ∈ host := List.count_pos_iff.1 (by omega)
        obtain ⟨front, rest, rfl, absent⟩ := last_occurrence member
        rw [cut_last_behind absent] at cut
        cases cut
      | some parts =>
        obtain ⟨front, back⟩ := parts
        rw [cut] at valid
        exact ⟨front, back, by simpa using cut_last_eq cut, valid⟩
    · rintro ⟨-, front, back, rfl, digits⟩
      have clean : 58 ∉ back := fun member => absurd (List.all_eq_true.1 digits 58 member) (by decide)
      rw [colonPort, cut_last_behind clean]
      exact digits

end Hosts

end UrlHosts
