import RootShell.CapturePatterns
import RootShell.TokenExpansion
import RootShell.WordFields

/-!
Forward specifications: parseBindCfg, parseForwardCfg and parseForwardArg of
tssh/forward.go. The configuration file gives the two ends apart from each other, the
command line joins them by a colon, and the parser of the joined text tries its patterns in
order; what the patterns find in a single end.
-/
namespace ForwardSpecs
open ByteLines ByteText CapturePatterns TokenExpansion WordFields

variable {v p s h q val x y x' y' a b d : Bytes} {captures ts tokens rest : List Bytes}

section Patterns

def ipv6Byte (c : UInt8) : Bool := c == 58 || decimalByte c || (97 ≤ c && c ≤ 102) || (65 ≤ c && c ≤ 70)

def notColon (c : UInt8) : Bool := c != 58

def dot (c : UInt8) : Bool := c != 10

abbrev Regexp := List (Item UInt8)

def portOnlyRegexp : Regexp := [.run decimalByte]

def ipv6AndPortRegexp : Regexp := [.lit 91, .run ipv6Byte, .lit 93, .lit 58, .run decimalByte]

def doubleIPv6Regexp : Regexp :=
  [.lit 91, .run ipv6Byte, .lit 93, .lit 58, .run decimalByte, .lit 58,
    .lit 91, .run ipv6Byte, .lit 93, .lit 58, .run decimalByte]

def firstIPv6Regexp : Regexp :=
  [.lit 91, .run ipv6Byte, .lit 93, .lit 58, .run decimalByte, .lit 58,
    .run notColon, .lit 58, .run decimalByte]

def secondIPv6Regexp : Regexp :=
  [.optional notColon, .lit 58, .run decimalByte, .lit 58,
    .lit 91, .run ipv6Byte, .lit 93, .lit 58, .run decimalByte]

def middleIPv6Regexp : Regexp :=
  [.run decimalByte, .lit 58, .lit 91, .run ipv6Byte, .lit 93, .lit 58, .run decimalByte]

/-- The dot of this one captures nothing in the source. -/
def unixSocketRegexp : Regexp := [.lit 47, .run dot]

def matchString (r : Regexp) (s : Bytes) : Bool := (capture r s).isSome

end Patterns

structure BindCfg where
  argument : Bytes
  addr : Option Bytes
  port : Int

structure ForwardCfg where
  udp : Bool
  argument : Bytes
  bindAddr : Option Bytes
  bindPort : Int
  destHost : Bytes
  destPort : Int

inductive SpecError where
  | invalidBind (str : Bytes)
  | invalidBindPort (str port : Bytes)
  | expandFailed (str : Bytes) (cause : TokenError)
  | invalidConfig (str : Bytes)
  | invalidConfigPort (str port : Bytes)
  | invalidSpec (str : Bytes)
  | invalidSpecPort (str port : Bytes)

section Config

def newBindArg (str : Bytes) (addr : Option Bytes) (port : Bytes) : Except SpecError BindCfg :=
  match parseUintSized 10 16 port with
  | none => .error (.invalidBindPort str port)
  | some p => .ok ⟨str, addr, p⟩

def hostAndPort : List Bytes → Option (Bytes × Bytes)
  | [host, port] => if matchString portOnlyRegexp port then some (host, port) else none
  | _ => none

def twoGroups : Option (List Bytes) → Option (Bytes × Bytes)
  | some [first, second] => some (first, second)
  | _ => none

def ipv6AndPort (str : Bytes) : Option (Bytes × Bytes) := twoGroups (capture ipv6AndPortRegexp str)

def splitEnd (str : Bytes) : Option (Bytes × Bytes) :=
  hostAndPort (str.splitOn 47) <|> ipv6AndPort str <|> hostAndPort (str.splitOn 58)

def parseBindCfg (str : Bytes) : Except SpecError BindCfg :=
  let str := trimSpace str
  if matchString portOnlyRegexp str then newBindArg str none str
  else
    match splitEnd str with
    | some found => newBindArg str (some found.1) found.2
    | none => if matchString unixSocketRegexp str then .ok ⟨str, some str, -1⟩ else .error (.invalidBind str)

def parseDest (udp : Bool) (str : Bytes) (bind : BindCfg) (dest : Bytes) : Except SpecError ForwardCfg :=
  match splitEnd dest with
  | some found =>
    match parseUintSized 10 16 found.2 with
    | none => .error (.invalidConfigPort str found.2)
    | some port => .ok ⟨udp, str, bind.addr, bind.port, found.1, port⟩
  | none =>
    if matchString unixSocketRegexp dest then .ok ⟨udp, str, bind.addr, bind.port, dest, -1⟩
    else .error (.invalidConfig str)

def forwardTokens : Bytes := text "%CdhijkLlnpru"

def parseForwardCfg (param : SshParam) (udp : Bool) (str : Bytes) : Except SpecError ForwardCfg :=
  match expandTokens str param forwardTokens with
  | .error cause => .error (.expandFailed str cause)
  | .ok expanded =>
    match fields expanded with
    | [bind, dest] =>
      match parseBindCfg bind with
      | .error _ => .error (.invalidConfig str)
      | .ok cfg => parseDest udp str cfg dest
    | _ => .error (.invalidConfig str)

end Config

section Argument

def isUdpPrefix (str : Bytes) : Bool :=
  match str with
  | u :: d :: p :: c :: _ =>
    (u == 117 || u == 85) && (d == 100 || d == 68) && (p == 112 || p == 80) &&
      (c == 47 || c == 58 || c == 45 || c == 95)
  | _ => false

structure Found where
  bindAddr : Option Bytes
  bindPort : Option Bytes
  destHost : Bytes
  destPort : Option Bytes

def portTokens : List Bytes → Option Found
  | [port, host, hostPort] =>
    if matchString portOnlyRegexp port ∧ matchString portOnlyRegexp hostPort then
      some ⟨none, some port, host, some hostPort⟩
    else none
  | [addr, port, host, hostPort] =>
    if matchString portOnlyRegexp port ∧ matchString portOnlyRegexp hostPort then
      some ⟨some addr, some port, host, some hostPort⟩
    else none
  | _ => none

def fourGroups (r : Regexp) (val : Bytes) : Option Found :=
  match capture r val with
  | some [addr, port, host, hostPort] => some ⟨some addr, some port, host, some hostPort⟩
  | _ => none

def middleGroups (val : Bytes) : Option Found :=
  match capture middleIPv6Regexp val with
  | some [port, host, hostPort] => some ⟨none, some port, host, some hostPort⟩
  | _ => none

def ipv6Groups (val : Bytes) : Option Found :=
  fourGroups doubleIPv6Regexp val <|> fourGroups firstIPv6Regexp val <|> fourGroups secondIPv6Regexp val <|>
    middleGroups val

def socketTokens : List Bytes → Option Found
  | [first, second] =>
    if matchString portOnlyRegexp first ∧ matchString unixSocketRegexp second then
      some ⟨none, some first, second, none⟩
    else if matchString unixSocketRegexp first ∧ matchString unixSocketRegexp second then
      some ⟨some first, none, second, none⟩
    else none
  | [first, second, third] =>
    if matchString portOnlyRegexp second ∧ matchString unixSocketRegexp third then
      some ⟨some first, some second, third, none⟩
    else if matchString portOnlyRegexp third ∧ matchString unixSocketRegexp first then
      some ⟨some first, none, second, some third⟩
    else none
  | _ => none

def findParts (val : Bytes) : Option Found :=
  portTokens (val.splitOn 47) <|> ipv6Groups val <|> portTokens (val.splitOn 58) <|> socketTokens (val.splitOn 58)

def portNumber (str : Bytes) : Option Bytes → Except SpecError Int
  | none => .ok (-1)
  | some port =>
    match parseUintSized 10 16 port with
    | none => .error (.invalidSpecPort str port)
    | some p => .ok p

def parseForwardArg (str : Bytes) : Except SpecError ForwardCfg :=
  let str := trimSpace str
  let udp := isUdpPrefix str
  let val := if udp then str.drop 4 else str
  match findParts val with
  | none => .error (.invalidSpec str)
  | some found =>
    match portNumber str found.bindPort with
    | .error e => .error e
    | .ok bindPort =>
      match portNumber str found.destPort with
      | .error e => .error e
      | .ok destPort => .ok ⟨udp, str, found.bindAddr, bindPort, found.destHost, destPort⟩

end Argument

section Specs

inductive Spec where
  | port (port : Bytes)
  | host (host port : Bytes)
  | ipv6 (addr port : Bytes)
  | path (path : Bytes)

def Spec.text : Spec → Bytes
  | .port p => p
  | .host h p => h ++ 58 :: p
  | .ipv6 v p => 91 :: (v ++ 93 :: 58 :: p)
  | .path q => q

/-- A host is empty, a star or a name: no colon, slash, bracket, percent sign or white space. -/
structure Plain (h : Bytes) : Prop where
  colon : 58 ∉ h
  slash : 47 ∉ h
  opening : 91 ∉ h
  closing : 93 ∉ h
  percent : 37 ∉ h
  unbroken : Unbroken spaceUnits h

/-- The text of an IPv6 address has two colons or more; its last part may be written with
    dots. -/
structure AddressText (v : Bytes) : Prop where
  bytes : ∀ c ∈ v, ipv6Byte c = true ∨ c = 46
  colons : 2 ≤ v.count 58

structure PathText (q : Bytes) : Prop where
  absolute : q.head? = some 47
  colon : 58 ∉ q
  percent : 37 ∉ q
  unbroken : Unbroken spaceUnits q

def Spec.Ok : Spec → Prop
  | .port p => Numeral p
  | .host h p => Plain h ∧ Numeral p
  | .ipv6 v p => AddressText v ∧ Numeral p
  | .path q => PathText q

def Spec.Dest : Spec → Prop
  | .port _ => False
  | .host h _ => h ≠ []
  | .ipv6 _ _ => True
  | .path _ => True

/-- The paths that read as something else than a path: an empty host and a port, or what
    stands before or behind the colon of a form with slashes. -/
inductive Shape where
  | root
  | port (n : Bytes)
  | twin (n host : Bytes)
  | slash (n host m : Bytes)
  | other

def shape (q : Bytes) : Shape :=
  match q.splitOn 47 with
  | [_, n] => if n = [] then .root else if Numeral n then .port n else .other
  | [_, n, host] => if Numeral n then .twin n host else .other
  | [_, n, host, m] => if Numeral n ∧ Numeral m then .slash n host m else .other
  | _ => .other

/-- The root is not the path of a socket. -/
@[simp] def pathReading (q : Bytes) : Shape → Option (Option Bytes × Option Bytes)
  | .root => none
  | .port n => some (some [], some n)
  | .twin _ _ | .slash _ _ _ | .other => some (some q, none)

/-- The address and the text of the port that the configuration file reads in an end; the
    patterns know no address with dots. -/
def Spec.reading : Spec → Option (Option Bytes × Option Bytes)
  | .port p => some (none, some p)
  | .host h p => some (some h, some p)
  | .ipv6 v p => if v.all ipv6Byte then some (some v, some p) else none
  | .path q => pathReading q (shape q)

/-- What the command line takes an end for that it finds apart from the other: a path is one. -/
def Spec.apart : Spec → Option (Option Bytes × Option Bytes)
  | .path q => if q = [47] then none else some (some q, none)
  | b => b.reading

def portValue : Option Bytes → Option Int
  | none => some (-1)
  | some p => (parseUintSized 10 16 p).map Int.ofNat

def InRange (p : Bytes) : Prop := (parseUintSized 10 16 p).isSome = true

def Taken (x : Option (Option Bytes × Option Bytes)) : Prop := ∃ y, x = some y ∧ (portValue y.2).isSome = true

def Spec.Readable (b : Spec) : Prop := Taken b.reading

/-- The pairs that the two parsers read in the same way or both refuse: the command line takes
    a path as one where the file reads a port in it, finds the form with slashes across the
    colon, and knows no pattern for an address next to a path. -/
def Clear : Spec → Spec → Prop
  | .path q, .path r =>
    match shape q, shape r with
    | .root, _ => True
    | _, .root => True
    | .twin _ _, .port m => ¬ InRange m
    | .port _, _ => False
    | _, .port _ => False
    | _, _ => True
  | .path q, .host _ n =>
    match shape q with
    | .port _ => ¬ InRange n
    | _ => True
  | .path q, .ipv6 w n => ¬ ((Spec.path q).Readable ∧ (Spec.ipv6 w n).Readable)
  | .ipv6 v p, .path r =>
    match shape r with
    | .slash n _ m => ¬ (Spec.ipv6 v p).Readable ∧ ¬ (InRange n ∧ InRange m)
    | _ => ¬ ((Spec.ipv6 v p).Readable ∧ (Spec.path r).Readable)
  | .port p, .path r | .host _ p, .path r =>
    match shape r with
    | .slash n _ m => ¬ InRange p ∧ ¬ (InRange n ∧ InRange m)
    | .port _ => ¬ InRange p
    | _ => True
  | _, _ => True

end Specs

section Texts

theorem numeral_no (numeral : Numeral p) : 58 ∉ p ∧ 47 ∉ p ∧ 91 ∉ p ∧ 93 ∉ p ∧ 37 ∉ p ∧ 10 ∉ p :=
  ⟨numeral_clean numeral rfl, numeral_clean numeral rfl, numeral_clean numeral rfl, numeral_clean numeral rfl,
    numeral_clean numeral rfl, numeral_clean numeral rfl⟩

theorem port_only_iff : matchString portOnlyRegexp s = true ↔ Numeral s := by
  have firm : Firm portOnlyRegexp := ⟨trivial, trivial⟩
  rw [matchString, Option.isSome_iff_exists]
  constructor
  · rintro ⟨captures, found⟩
    cases (capture_iff firm).1 found with
    | run some inside rest =>
      cases rest
      rw [List.append_nil]
      exact ⟨some, inside⟩
  · intro numeral
    have matched := Matches.run numeral.1 numeral.2 (Matches.nil (A := UInt8))
    rw [List.append_nil] at matched
    exact ⟨_, (capture_iff firm).2 matched⟩

theorem unix_socket_iff : matchString unixSocketRegexp s = true ↔ ∃ w, s = 47 :: w ∧ w ≠ [] ∧ 10 ∉ w := by
  have firm : Firm unixSocketRegexp := ⟨trivial, trivial⟩
  rw [matchString, Option.isSome_iff_exists]
  constructor
  · rintro ⟨captures, found⟩
    cases (capture_iff firm).1 found with
    | lit a rest =>
      cases rest with
      | run some inside rest =>
        cases rest
        rw [List.append_nil]
        exact ⟨_, rfl, some, fun newline => by simpa [dot] using inside 10 newline⟩
  · rintro ⟨w, rfl, some, line⟩
    have inside : ∀ c ∈ w, dot c = true := other_bytes line
    have matched := Matches.lit 47 (Matches.run some inside Matches.nil)
    rw [List.append_nil] at matched
    exact ⟨_, (capture_iff firm).2 matched⟩

theorem not_colon_bytes (absent : 58 ∉ h) : ∀ c ∈ h, notColon c = true := other_bytes absent

theorem numeral_no_socket (numeral : Numeral p) : matchString unixSocketRegexp p = false := by
  rw [Bool.eq_false_iff, Ne, unix_socket_iff]
  rintro ⟨w, rfl, _⟩
  exact (numeral_no numeral).2.1 (by simp)

theorem path_no_port (path : PathText q) : ¬ Numeral q := by
  intro numeral
  exact (numeral_no numeral).2.1 (List.mem_of_mem_head? path.absolute)

theorem path_socket (path : PathText q) : matchString unixSocketRegexp q = decide (q ≠ [47]) := by
  cases q with
  | nil => cases path.absolute
  | cons c w =>
    cases path.absolute
    have newline : 10 ∉ w := by
      intro member
      have whole : [10] <:+: 47 :: w :=
        (List.singleton_infix_iff 10 w).2 member |>.trans (List.suffix_cons 47 w).isInfix
      exact path.unbroken [10] (by decide) whole
    rw [Bool.eq_iff_iff, unix_socket_iff, decide_eq_true_iff]
    constructor
    · rintro ⟨v, same, some, _⟩ root
      cases root
      cases same
      exact some rfl
    · intro other
      exact ⟨w, rfl, fun empty => other (by rw [empty]), newline⟩

end Texts

section Brackets
theorem address_text (address : AddressText v) : v ≠ [] ∧ 91 ∉ v ∧ 93 ∉ v ∧ 47 ∉ v ∧ 37 ∉ v := by
  have clean {c : UInt8} (outside : ipv6Byte c = false) (other : c ≠ 46) : c ∉ v := by
    intro member
    rcases address.bytes c member with inside | dotted
    · rw [outside] at inside
      cases inside
    · exact other dotted
  refine ⟨?_, clean rfl (by decide), clean rfl (by decide), clean rfl (by decide), clean rfl (by decide)⟩
  rintro rfl
  exact absurd address.colons (by decide)

theorem cut_unique {c : UInt8} (absent : c ∉ x) (absent' : c ∉ x')
    (same : x ++ c :: y = x' ++ c :: y') : x = x' ∧ y = y' := by
  have stop (z : Bytes) : ∀ a ∈ (c :: z).head?, (a != c) = false := by simp
  obtain ⟨front, back⟩ := run_unique (other_bytes absent) (stop y) (other_bytes absent') (stop y') same
  exact ⟨front, (List.cons.inj back).2⟩

theorem capture_bracket (some : v ≠ []) (inside : ∀ c ∈ v, ipv6Byte c = true) (numeral : Numeral p)
    (stop : ∀ c ∈ s.head?, decimalByte c = false) (parts : Regexp) :
    capture (.lit 91 :: .run ipv6Byte :: .lit 93 :: .lit 58 :: .run decimalByte :: parts)
        (91 :: (v ++ 93 :: 58 :: (p ++ s))) =
      (capture parts s).map (v :: p :: ·) := by
  have closed : ∀ c ∈ (93 :: 58 :: (p ++ s)).head?, ipv6Byte c = false := by simp [ipv6Byte, decimalByte]
  rw [capture_lit, capture_run some inside closed, capture_lit, capture_lit,
    capture_run numeral.1 numeral.2 stop, Option.map_map]
  rfl

theorem capture_bracket_none (closing : 93 ∉ v) (outside : ¬ ∀ c ∈ v, ipv6Byte c = true) (parts : Regexp) :
    capture (.lit 91 :: .run ipv6Byte :: .lit 93 :: parts) (91 :: (v ++ 93 :: s)) = none := by
  refine capture_none fun captures matched => outside ?_
  cases matched with
  | lit _ rest =>
    generalize same : v ++ 93 :: s = t at rest
    cases rest with
    | @run _ _ w _ _ some inside rest =>
      cases rest with
      | lit _ rest =>
        have clean : 93 ∉ w := fun member => absurd (inside 93 member) (by decide)
        rw [(cut_unique closing clean same).1]
        exact inside

theorem capture_bracket_end (address : AddressText v) (numeral : Numeral p) :
    capture ipv6AndPortRegexp (91 :: (v ++ 93 :: 58 :: p)) = if v.all ipv6Byte then some [v, p] else none := by
  obtain ⟨filled, _, closing, _⟩ := address_text address
  by_cases inside : ∀ c ∈ v, ipv6Byte c = true
  · have found := capture_bracket (s := []) filled inside numeral (by simp) []
    rw [List.append_nil] at found
    rw [if_pos (List.all_eq_true.2 inside), ipv6AndPortRegexp, found]
    rfl
  · rw [if_neg (mt List.all_eq_true.1 inside), ipv6AndPortRegexp, capture_bracket_none closing inside]

theorem ipv6_and_port_text (address : AddressText v) (numeral : Numeral p) :
    ipv6AndPort (91 :: (v ++ 93 :: 58 :: p)) = if v.all ipv6Byte then some (v, p) else none := by
  rw [ipv6AndPort, capture_bracket_end address numeral]
  split <;> rfl

theorem ipv6_and_port_other (other : s.head? ≠ some 91) : ipv6AndPort s = none := by
  rw [ipv6AndPort, ipv6AndPortRegexp, capture_lit_other other]
  rfl

theorem host_and_port_many (many : 3 ≤ ts.length) : hostAndPort ts = none := by
  obtain _ | ⟨a, _ | ⟨b, _ | ⟨c, rest⟩⟩⟩ := ts
  · rfl
  · rfl
  · simp at many
  · rfl

theorem colon_tokens_many (many : 5 ≤ ts.length) : portTokens ts = none ∧ socketTokens ts = none := by
  obtain _ | ⟨a, _ | ⟨b, _ | ⟨c, _ | ⟨d, _ | ⟨e, rest⟩⟩⟩⟩⟩ := ts
  · exact ⟨rfl, rfl⟩
  · exact ⟨rfl, rfl⟩
  · simp at many
  · simp at many
  · simp at many
  · exact ⟨rfl, rfl⟩

theorem head_other {c : UInt8} (absent : c ∉ s) : s.head? ≠ some c :=
  fun first => absent (List.mem_of_mem_head? first)

theorem no_slash (absent : 47 ∉ s) : hostAndPort (s.splitOn 47) = none ∧ portTokens (s.splitOn 47) = none := by
  rw [List.splitOn_eq_singleton absent]
  exact ⟨rfl, rfl⟩

end Brackets

section Ends
theorem split_end_host (plain : Plain h) (numeral : Numeral p) : splitEnd (h ++ 58 :: p) = some (h, p) := by
  obtain ⟨colon, slash, bracket, _⟩ := numeral_no numeral
  have other : 47 ∉ h ++ 58 :: p := by simp [plain.slash, slash]
  have first : (h ++ 58 :: p).head? ≠ some 91 := head_other (by simp [plain.opening, bracket])
  rw [splitEnd, (no_slash other).1, ipv6_and_port_other first, List.splitOn_append_cons_self_of_not_mem plain.colon,
    List.splitOn_eq_singleton colon]
  simp [hostAndPort, port_only_iff.2 numeral]

theorem split_end_ipv6 (address : AddressText v) (numeral : Numeral p) :
    splitEnd (91 :: (v ++ 93 :: 58 :: p)) = if v.all ipv6Byte then some (v, p) else none := by
  obtain ⟨colon, slash, _⟩ := numeral_no numeral
  obtain ⟨_, _, _, clean, _⟩ := address_text address
  have other : 47 ∉ 91 :: (v ++ 93 :: 58 :: p) := by simp [clean, slash]
  have tokens : hostAndPort ((91 :: (v ++ 93 :: 58 :: p)).splitOn 58) = none := by
    have colons := address.colons
    refine host_and_port_many ?_
    rw [split_on_length, List.count_cons_of_ne (by decide), List.count_append]
    omega
  rw [splitEnd, (no_slash other).1, ipv6_and_port_text address numeral, tokens]
  split <;> rfl

theorem path_tokens (path : PathText q) : ∃ w, q = 47 :: w ∧ q.splitOn 47 = [] :: w.splitOn 47 := by
  cases q with
  | nil => cases path.absolute
  | cons c w =>
    cases path.absolute
    exact ⟨w, rfl, List.splitOn_append_cons_self_of_not_mem List.not_mem_nil w⟩

theorem shape_root (path : PathText q) : shape q = .root ↔ q = [47] := by
  obtain ⟨w, rfl, tokens⟩ := path_tokens path
  have whole : List.intercalate [47] (w.splitOn 47) = w := List.intercalate_splitOn 47
  rw [shape, tokens]
  constructor
  · intro root
    rcases parts : w.splitOn 47 with _ | ⟨a, _ | ⟨b, _ | ⟨c, _ | ⟨d, rest⟩⟩⟩⟩
    all_goals grind [List.intercalate_singleton]
  · intro root
    cases root
    rfl

theorem split_end_path (path : PathText q) :
    splitEnd q = match shape q with
      | .port n => some ([], n)
      | _ => none := by
  obtain ⟨w, _, tokens⟩ := path_tokens path
  have empty : ¬ Numeral [] := fun numeral => numeral.1 rfl
  have slashes : hostAndPort (q.splitOn 47) = match shape q with
      | .port n => some ([], n)
      | _ => none := by
    rw [shape, tokens]
    rcases w.splitOn 47 with _ | ⟨a, _ | ⟨b, _ | ⟨c, _ | ⟨d, rest⟩⟩⟩⟩
    all_goals simp only [hostAndPort, port_only_iff]
    all_goals grind
  rw [splitEnd, slashes, ipv6_and_port_other (by rw [path.absolute]; decide), List.splitOn_eq_singleton path.colon]
  cases shape q <;> rfl

end Ends

section Groups
theorem second_tokens (found : capture secondIPv6Regexp val = some captures) :
    ∃ a n c rest, val.splitOn 58 = a :: n :: (91 :: c) :: rest ∧ Numeral n := by
  cases capture_matches found with
  | @optional _ _ a _ _ inside rest =>
    cases rest with
    | lit _ rest =>
      cases rest with
      | @run _ _ n _ _ some digits rest =>
        cases rest with
        | lit _ rest =>
          cases rest with
          | @lit _ s _ _ rest =>
            have numeral : Numeral n := ⟨some, digits⟩
            have clean : 58 ∉ a := fun member => absurd (inside 58 member) (by decide)
            obtain ⟨c, rest, _, tokens⟩ := split_on_front (show 58 ∉ ([91] : Bytes) by decide) s
            refine ⟨a, n, c, rest, ?_, numeral⟩
            rw [List.splitOn_append_cons_self_of_not_mem clean,
              List.splitOn_append_cons_self_of_not_mem (numeral_no numeral).1]
            exact congrArg (a :: n :: ·) tokens

theorem middle_tokens (found : capture middleIPv6Regexp val = some captures) :
    ∃ n c rest, val.splitOn 58 = n :: (91 :: c) :: rest ∧ Numeral n := by
  cases capture_matches found with
  | @run _ _ n _ _ some digits rest =>
    cases rest with
    | lit _ rest =>
      cases rest with
      | @lit _ s _ _ rest =>
        obtain ⟨c, rest, _, tokens⟩ := split_on_front (show 58 ∉ ([91] : Bytes) by decide) s
        refine ⟨n, c, rest, ?_, some, digits⟩
        rw [List.splitOn_append_cons_self_of_not_mem (numeral_no ⟨some, digits⟩).1]
        exact congrArg (n :: ·) tokens

theorem four_groups_none {r : Regexp} (never : capture r val = none) : fourGroups r val = none := by
  rw [fourGroups, never]

theorem four_groups_some {r : Regexp} {c : Bytes} (found : capture r val = some [a, b, c, d]) :
    fourGroups r val = some ⟨some a, some b, c, some d⟩ := by
  rw [fourGroups, found]

theorem middle_groups_none (never : capture middleIPv6Regexp val = none) : middleGroups val = none := by
  rw [middleGroups, never]

theorem four_groups_behind {r parts : Regexp} (scanned : capture r val = (capture parts s).map (a :: b :: ·)) :
    fourGroups r val = (twoGroups (capture parts s)).map fun x => ⟨some a, some b, x.1, some x.2⟩ := by
  rw [fourGroups, scanned]
  rcases capture parts s with _ | _ | ⟨c, _ | ⟨d, _ | ⟨e, rest⟩⟩⟩
  all_goals rfl

theorem second_none (other : ∀ a n c rest, val.splitOn 58 = a :: n :: (91 :: c) :: rest → ¬ Numeral n) :
    fourGroups secondIPv6Regexp val = none := by
  cases found : capture secondIPv6Regexp val with
  | none => exact four_groups_none found
  | some captures =>
    obtain ⟨a, n, c, rest, tokens, numeral⟩ := second_tokens found
    exact absurd numeral (other a n c rest tokens)

theorem middle_none (other : ∀ n c rest, val.splitOn 58 = n :: (91 :: c) :: rest → ¬ Numeral n) :
    middleGroups val = none := by
  cases found : capture middleIPv6Regexp val with
  | none => exact middle_groups_none found
  | some captures =>
    obtain ⟨n, c, rest, tokens, numeral⟩ := middle_tokens found
    exact absurd numeral (other n c rest tokens)

theorem bracket_first_none (first : val.head? ≠ some 91) :
    fourGroups doubleIPv6Regexp val = none ∧ fourGroups firstIPv6Regexp val = none :=
  ⟨four_groups_none (capture_lit_other first _), four_groups_none (capture_lit_other first _)⟩

theorem ipv6_groups_none (split : val.splitOn 58 = tokens) (first : val.head? ≠ some 91)
    (second : ∀ s ∈ tokens[1]?, s.head? ≠ some 91) (third : ∀ s ∈ tokens[2]?, s.head? ≠ some 91) :
    ipv6Groups val = none := by
  obtain ⟨double, single⟩ := bracket_first_none first
  have behind : fourGroups secondIPv6Regexp val = none := second_none fun a n c rest same => by
    rw [← split, same] at third
    exact absurd rfl (third (91 :: c) rfl)
  have middle : middleGroups val = none := middle_none fun a c rest same _ => by
    rw [← split, same] at second
    exact second (91 :: c) rfl rfl
  rw [ipv6Groups, double, single, behind, middle]
  rfl

theorem first_token_head {c : Bytes} {a sep : UInt8} (tokens : s.splitOn sep = (a :: c) :: rest) :
    s.head? = some a := by
  have whole : List.intercalate [sep] (s.splitOn sep) = s := List.intercalate_splitOn sep
  rw [tokens] at whole
  cases rest with
  | nil => simp [← whole]
  | cons next rest => simp [← whole, List.intercalate_cons_cons]

theorem address_second_none (address : AddressText v) (s : Bytes) :
    fourGroups secondIPv6Regexp (91 :: (v ++ 93 :: s)) = none := by
  obtain ⟨_, opening, _⟩ := address_text address
  have colons := address.colons
  obtain ⟨x, y, rfl, absent⟩ := List.eq_append_cons_of_mem (List.count_pos_iff.1 (show 0 < v.count 58 by omega))
  have more : 0 < y.count 58 := by
    rw [List.count_append, List.count_eq_zero_of_not_mem absent, List.count_cons_self] at colons
    omega
  obtain ⟨z, u, rfl, absent'⟩ := List.eq_append_cons_of_mem (List.count_pos_iff.1 more)
  have tokens : (91 :: (x ++ 58 :: (z ++ 58 :: u) ++ 93 :: s)).splitOn 58 =
      (91 :: x) :: z :: (u ++ 93 :: s).splitOn 58 := by
    have shape : 91 :: (x ++ 58 :: (z ++ 58 :: u) ++ 93 :: s) = (91 :: x) ++ 58 :: (z ++ 58 :: (u ++ 93 :: s)) := by
      simp
    rw [shape, List.splitOn_append_cons_self_of_not_mem (by simp [absent]),
      List.splitOn_append_cons_self_of_not_mem absent']
  refine second_none fun a n c rest same => ?_
  rw [tokens] at same
  have first := first_token_head (List.cons.inj (List.cons.inj same).2).2
  cases u with
  | nil => cases first
  | cons b u => exact absurd (Option.some.inj first ▸ by simp) opening

theorem bracket_middle_none (s : Bytes) : middleGroups (91 :: s) = none := middle_groups_none rfl

end Groups

end ForwardSpecs
