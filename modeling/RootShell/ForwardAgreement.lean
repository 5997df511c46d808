import RootShell.ForwardSpecs

/-!
The two ways to write a forward: what the parser of the joined text finds between the ends, what
the configuration file reads in each of them, and exactly which pairs of ends both read alike.
-/
namespace ForwardSpecs
open ByteLines ByteText CapturePatterns TokenExpansion WordFields

variable {h h' v w p n q r m s last : Bytes}

section Joined
def joined (b d : Spec) : Option Found :=
  b.apart.bind fun x => d.apart.map fun y => ⟨x.1, x.2, y.1.getD [], y.2⟩

/-- What the parser of the joined text finds. -/
def argued : Spec → Spec → Option Found
  | .path q, .path r =>
    match shape q, shape r with
    | .twin n host, .port m => some ⟨some [], some n, host ++ [58], some m⟩
    | _, _ => joined (.path q) (.path r)
  | .path _, .ipv6 _ _ => none
  | .path q, d => joined (.path q) d
  | b, .path r =>
    match shape r, b with
    | .slash n host m, b => some ⟨some (b.text ++ [58]), some n, host, some m⟩
    | _, .ipv6 _ _ => none
    | _, b => joined b (.path r)
  | b, d => joined b d

theorem colon_head (absent : 91 ∉ h) (s : Bytes) : (h ++ 58 :: s).head? ≠ some 91 := by
  cases h with
  | nil => simp
  | cons c h =>
    intro first
    exact absent (Option.some.inj first ▸ List.mem_cons_self)

theorem join_port_host (numeral : Numeral p) (plain : Plain h) (other : Numeral n) :
    findParts (p ++ 58 :: (h ++ 58 :: n)) = some ⟨none, some p, h, some n⟩ := by
  obtain ⟨colon, slash, bracket, _⟩ := numeral_no numeral
  obtain ⟨colon', slash', bracket', _⟩ := numeral_no other
  have tokens : (p ++ 58 :: (h ++ 58 :: n)).splitOn 58 = [p, h, n] := by
    rw [List.splitOn_append_cons_self_of_not_mem colon, List.splitOn_append_cons_self_of_not_mem plain.colon,
      List.splitOn_eq_singleton colon']
  have slashes : 47 ∉ p ++ 58 :: (h ++ 58 :: n) := by simp [slash, slash', plain.slash]
  have groups := ipv6_groups_none tokens (head_other (by simp [bracket, bracket', plain.opening]))
    (by simpa using head_other plain.opening) (by simpa using head_other bracket')
  rw [findParts, (no_slash slashes).2, groups, tokens]
  simp [portTokens, port_only_iff.2 numeral, port_only_iff.2 other]

theorem join_host_host (plain : Plain h) (numeral : Numeral p) (plain' : Plain h') (other : Numeral n) :
    findParts (h ++ 58 :: p ++ 58 :: (h' ++ 58 :: n)) = some ⟨some h, some p, h', some n⟩ := by
  obtain ⟨colon, slash, bracket, _⟩ := numeral_no numeral
  obtain ⟨colon', slash', bracket', _⟩ := numeral_no other
  have tokens : (h ++ 58 :: p ++ 58 :: (h' ++ 58 :: n)).splitOn 58 = [h, p, h', n] := by
    rw [List.append_assoc, List.cons_append, List.splitOn_append_cons_self_of_not_mem plain.colon,
      List.splitOn_append_cons_self_of_not_mem colon, List.splitOn_append_cons_self_of_not_mem plain'.colon,
      List.splitOn_eq_singleton colon']
  have slashes : 47 ∉ h ++ 58 :: p ++ 58 :: (h' ++ 58 :: n) := by
    simp [slash, slash', plain.slash, plain'.slash]
  have groups := ipv6_groups_none tokens
    (head_other (by simp [bracket, bracket', plain.opening, plain'.opening]))
    (by simpa using head_other bracket) (by simpa using head_other plain'.opening)
  rw [findParts, (no_slash slashes).2, groups, tokens]
  simp [portTokens, port_only_iff.2 numeral, port_only_iff.2 other]

theorem address_many (address : AddressText v) (more : v.count 58 + 2 ≤ s.count 58) :
    portTokens (s.splitOn 58) = none ∧ socketTokens (s.splitOn 58) = none := by
  have colons := address.colons
  refine colon_tokens_many ?_
  rw [split_on_length]
  omega

@[simp] abbrev bracketed (v s : Bytes) : Bytes := 91 :: (v ++ 93 :: 58 :: s)

theorem bracket_colons (v s : Bytes) : (bracketed v s).count 58 = v.count 58 + s.count 58 + 1 := by
  rw [List.count_cons_of_ne (by decide), List.count_append, List.count_cons_of_ne (by decide), List.count_cons_self]
  omega

theorem bracket_second_none {x : Bytes} (colon : 58 ∉ x) (s : Bytes) :
    fourGroups secondIPv6Regexp (x ++ 58 :: 91 :: s) = none := by
  obtain ⟨y, ys, _, tokens⟩ := split_on_front (show 58 ∉ ([91] : Bytes) by decide) s
  refine second_none fun a m c rest same => ?_
  rw [List.splitOn_append_cons_self_of_not_mem colon] at same
  have behind := tokens.symm.trans (List.cons.inj same).2
  rw [← (List.cons.inj behind).1]
  exact fun number => (numeral_no number).2.2.1 (by simp)

theorem join_port_ipv6 (numeral : Numeral p) (address : AddressText v) (other : Numeral n) :
    findParts (p ++ 58 :: bracketed v n) =
      if v.all ipv6Byte then some ⟨none, some p, v, some n⟩ else none := by
  obtain ⟨colon, slash, bracket, _⟩ := numeral_no numeral
  obtain ⟨filled, _, closing, clean, _⟩ := address_text address
  have slashes : 47 ∉ p ++ 58 :: bracketed v n := by
    simp [slash, clean, (numeral_no other).2.1]
  obtain ⟨double, single⟩ := bracket_first_none (colon_head bracket (bracketed v n))
  have stop : ∀ c ∈ (58 :: bracketed v n).head?, decimalByte c = false := by simp [decimalByte]
  have scanned := capture_run numeral.1 numeral.2 stop
    [.lit 58, .lit 91, .run ipv6Byte, .lit 93, .lit 58, .run decimalByte]
  rw [capture_lit, ← ipv6AndPortRegexp, capture_bracket_end address other] at scanned
  rw [findParts, (no_slash slashes).2, ipv6Groups, double, single, bracket_second_none colon]
  by_cases inside : v.all ipv6Byte = true
  · rw [if_pos inside] at scanned ⊢
    have middle : capture middleIPv6Regexp (p ++ 58 :: bracketed v n) = some [p, v, n] := scanned
    rw [middleGroups, middle]
    rfl
  · rw [if_neg inside] at scanned ⊢
    obtain ⟨ports, sockets⟩ := address_many (s := p ++ 58 :: bracketed v n) address (by
      rw [List.count_append, List.count_cons_self, bracket_colons]
      omega)
    rw [middle_groups_none scanned, ports, sockets]
    rfl

theorem join_host_ipv6 (plain : Plain h) (numeral : Numeral p) (address : AddressText v) (other : Numeral n) :
    findParts (h ++ 58 :: p ++ 58 :: bracketed v n) =
      if v.all ipv6Byte then some ⟨some h, some p, v, some n⟩ else none := by
  obtain ⟨colon, slash, bracket, _⟩ := numeral_no numeral
  obtain ⟨filled, _, closing, clean, _⟩ := address_text address
  have slashes : 47 ∉ h ++ 58 :: p ++ 58 :: bracketed v n := by
    simp [slash, clean, plain.slash, (numeral_no other).2.1]
  rw [List.append_assoc, List.cons_append] at slashes ⊢
  obtain ⟨double, single⟩ := bracket_first_none (colon_head plain.opening (p ++ 58 :: bracketed v n))
  have stop : ∀ c ∈ (58 :: (p ++ 58 :: bracketed v n)).head?, notColon c = false := by simp [notColon]
  have stop' : ∀ c ∈ (58 :: bracketed v n).head?, decimalByte c = false := by simp [decimalByte]
  have scanned := capture_optional (not_colon_bytes plain.colon) stop
    [.lit 58, .run decimalByte, .lit 58, .lit 91, .run ipv6Byte, .lit 93, .lit 58, .run decimalByte]
  rw [capture_lit, capture_run numeral.1 numeral.2 stop', capture_lit, ← ipv6AndPortRegexp,
    capture_bracket_end address other] at scanned
  rw [findParts, (no_slash slashes).2, ipv6Groups, double, single]
  by_cases inside : v.all ipv6Byte = true
  · rw [if_pos inside] at scanned ⊢
    have second : fourGroups secondIPv6Regexp (h ++ 58 :: (p ++ 58 :: bracketed v n)) =
        some ⟨some h, some p, v, some n⟩ := four_groups_some scanned
    rw [second]
    rfl
  · rw [if_neg inside] at scanned ⊢
    have second : fourGroups secondIPv6Regexp (h ++ 58 :: (p ++ 58 :: bracketed v n)) = none :=
      four_groups_none scanned
    have middle : middleGroups (h ++ 58 :: (p ++ 58 :: bracketed v n)) = none := by
      refine middle_none fun a c rest same _ => ?_
      rw [List.splitOn_append_cons_self_of_not_mem plain.colon, List.splitOn_append_cons_self_of_not_mem colon] at same
      exact bracket (by simp [(List.cons.inj (List.cons.inj same).2).1])
    obtain ⟨ports, sockets⟩ := address_many (s := h ++ 58 :: (p ++ 58 :: bracketed v n)) address (by
      rw [List.count_append, List.count_cons_self, List.count_append, List.count_cons_self, bracket_colons]
      omega)
    rw [second, middle, ports, sockets]
    rfl

def hostTail : Regexp := [.run notColon, .lit 58, .run decimalByte]

theorem host_tail_text (plain : Plain h) (filled : h ≠ []) (numeral : Numeral n) :
    capture hostTail (h ++ 58 :: n) = some [h, n] := by
  have stop : ∀ c ∈ (58 :: n).head?, notColon c = false := by simp [notColon]
  have last := capture_run (s := []) numeral.1 numeral.2 (by simp) []
  rw [List.append_nil] at last
  rw [hostTail, capture_run filled (not_colon_bytes plain.colon) stop, capture_lit, last]
  rfl

theorem host_tail_address (address : AddressText v) (s : Bytes) : capture hostTail (91 :: (v ++ 93 :: s)) = none := by
  refine capture_none fun captures matched => ?_
  have colons := address.colons
  generalize same : 91 :: (v ++ 93 :: s) = t at matched
  have count := congrArg (List.count 58) same
  rw [List.count_cons_of_ne (by decide), List.count_append] at count
  cases matched with
  | @run _ _ x _ _ some inside rest =>
    cases rest with
    | lit _ rest =>
      cases rest with
      | @run _ _ m _ _ some' digits rest =>
        cases rest
        have clean : 58 ∉ x := fun member => absurd (inside 58 member) (by decide)
        rw [List.append_nil, List.count_append, List.count_cons_self, List.count_eq_zero_of_not_mem clean,
          List.count_eq_zero_of_not_mem (numeral_no ⟨some', digits⟩).1] at count
        omega

theorem address_groups (address : AddressText v) (numeral : Numeral p) (s : Bytes) :
    (ipv6Groups (bracketed v (p ++ 58 :: s)) <|>
        portTokens ((bracketed v (p ++ 58 :: s)).splitOn 58) <|>
        socketTokens ((bracketed v (p ++ 58 :: s)).splitOn 58)) =
      if v.all ipv6Byte then
        (ipv6AndPort s <|> twoGroups (capture hostTail s)).map fun x => ⟨some v, some p, x.1, some x.2⟩
      else none := by
  obtain ⟨filled, _, closing, clean, _⟩ := address_text address
  obtain ⟨ports, sockets⟩ := address_many (s := bracketed v (p ++ 58 :: s)) address (by
    rw [bracket_colons, List.count_append, List.count_cons_self]
    omega)
  rw [ipv6Groups, address_second_none address, bracket_middle_none, ports, sockets]
  by_cases inside : ∀ c ∈ v, ipv6Byte c = true
  · have stop : ∀ c ∈ (58 :: s).head?, decimalByte c = false := by simp [decimalByte]
    have double : capture doubleIPv6Regexp (bracketed v (p ++ 58 :: s)) =
        (capture ipv6AndPortRegexp s).map (v :: p :: ·) := by
      rw [doubleIPv6Regexp, capture_bracket filled inside numeral stop, capture_lit, ipv6AndPortRegexp]
    have single : capture firstIPv6Regexp (bracketed v (p ++ 58 :: s)) =
        (capture hostTail s).map (v :: p :: ·) := by
      rw [firstIPv6Regexp, capture_bracket filled inside numeral stop, capture_lit, hostTail]
    rw [four_groups_behind double, four_groups_behind single, if_pos (List.all_eq_true.2 inside), ipv6AndPort]
    cases twoGroups (capture ipv6AndPortRegexp s) with
    | none => cases twoGroups (capture hostTail s) <;> rfl
    | some found => rfl
  · have double : fourGroups doubleIPv6Regexp (bracketed v (p ++ 58 :: s)) = none :=
      four_groups_none (capture_bracket_none closing inside _)
    have single : fourGroups firstIPv6Regexp (bracketed v (p ++ 58 :: s)) = none :=
      four_groups_none (capture_bracket_none closing inside _)
    rw [double, single, if_neg (mt List.all_eq_true.1 inside)]
    rfl

theorem join_address (address : AddressText v) (numeral : Numeral p) (slash : 47 ∉ s) :
    findParts (bracketed v (p ++ 58 :: s)) =
      if v.all ipv6Byte then
        (ipv6AndPort s <|> twoGroups (capture hostTail s)).map fun x => ⟨some v, some p, x.1, some x.2⟩
      else none := by
  obtain ⟨_, _, _, clean, _⟩ := address_text address
  have slashes : 47 ∉ bracketed v (p ++ 58 :: s) := by
    simp [slash, clean, (numeral_no numeral).2.1]
  rw [findParts, (no_slash slashes).2]
  exact address_groups address numeral s

theorem join_ipv6_host (address : AddressText v) (numeral : Numeral p) (plain : Plain h) (filled : h ≠ [])
    (other : Numeral n) :
    findParts (bracketed v p ++ 58 :: (h ++ 58 :: n)) =
      if v.all ipv6Byte then some ⟨some v, some p, h, some n⟩ else none := by
  have slash : 47 ∉ h ++ 58 :: n := by simp [plain.slash, (numeral_no other).2.1]
  have joined := join_address address numeral slash
  rw [ipv6_and_port_other (colon_head plain.opening n), host_tail_text plain filled other] at joined
  rw [List.cons_append, List.append_assoc]
  refine joined.trans ?_
  split <;> rfl

theorem join_ipv6_ipv6 (address : AddressText v) (numeral : Numeral p) (address' : AddressText w) (other : Numeral n) :
    findParts (bracketed v p ++ 58 :: bracketed w n) =
      if v.all ipv6Byte then (if w.all ipv6Byte then some ⟨some v, some p, w, some n⟩ else none) else none := by
  obtain ⟨_, _, _, clean, _⟩ := address_text address'
  have slash : 47 ∉ bracketed w n := by simp [clean, (numeral_no other).2.1]
  have joined := join_address address numeral slash
  rw [ipv6_and_port_text address' other, host_tail_address address'] at joined
  rw [List.cons_append, List.append_assoc]
  refine joined.trans ?_
  split
  · split <;> rfl
  · rfl

theorem path_head (path : PathText q) (s : Bytes) : (q ++ s).head? ≠ some 91 := by
  rw [List.head?_append, path.absolute, Option.some_or]
  decide

theorem root_no_socket (path : PathText q) (root : q = [47]) : matchString unixSocketRegexp q = false := by
  rw [path_socket path, decide_eq_false (not_not.2 root)]

theorem path_is_socket (path : PathText q) (root : q ≠ [47]) : matchString unixSocketRegexp q = true := by
  rw [path_socket path, decide_eq_true root]

theorem port_tokens_last {ts : List Bytes} {found : Found}
    (some : portTokens (ts ++ [last]) = some found) : Numeral last := by
  have ports {port hostPort : Bytes} {out : Found}
      (read : (if matchString portOnlyRegexp port ∧ matchString portOnlyRegexp hostPort then Option.some out
        else none) = Option.some found) : Numeral hostPort := by
    split at read
    · rename_i both
      exact port_only_iff.1 both.2
    · cases read
  rcases ts with _ | ⟨a, _ | ⟨b, _ | ⟨c, _ | ⟨d, rest⟩⟩⟩⟩
  · cases some
  · cases some
  · exact ports some
  · exact ports some
  · rw [(colon_tokens_many (by simp)).1] at some
    cases some

theorem slashes_before (q : Bytes) (slash : 47 ∉ s) : portTokens ((q ++ 58 :: s).splitOn 47) = none := by
  obtain ⟨ls, l, _, tokens⟩ := split_on_back (show 47 ∉ 58 :: s by simp [slash]) q
  rw [tokens]
  cases read : portTokens (ls ++ [l ++ 58 :: s]) with
  | none => rfl
  | some found => exact absurd (by simp) (numeral_no (port_tokens_last read)).1

theorem slashes_behind {x : Bytes} (slash : 47 ∉ x) (path : PathText r) :
    portTokens ((x ++ 58 :: r).splitOn 47) = match shape r with
      | .slash a host d => some ⟨some (x ++ [58]), some a, host, some d⟩
      | _ => none := by
  obtain ⟨w, rfl, tokens⟩ := path_tokens path
  have split : (x ++ 58 :: 47 :: w).splitOn 47 = (x ++ [58]) :: w.splitOn 47 := by
    have shape : x ++ 58 :: 47 :: w = (x ++ [58]) ++ 47 :: w := by simp
    rw [shape, List.splitOn_append_cons_self_of_not_mem (by simp [slash])]
  have first : ¬ Numeral (x ++ [58]) := fun numeral => (numeral_no numeral).1 (by simp)
  rw [split, shape, tokens]
  rcases w.splitOn 47 with _ | ⟨a, _ | ⟨b, _ | ⟨c, _ | ⟨d, rest⟩⟩⟩⟩
  all_goals simp only [portTokens, port_only_iff]
  all_goals grind

theorem slashes_paths (path : PathText q) (path' : PathText r) :
    portTokens ((q ++ 58 :: r).splitOn 47) = match shape q, shape r with
      | .twin a host, .port d => some ⟨some [], some a, host ++ [58], some d⟩
      | _, _ => none := by
  obtain ⟨w, rfl, tokens⟩ := path_tokens path
  obtain ⟨z, rfl, tokens'⟩ := path_tokens path'
  obtain ⟨ls, l, back, joint⟩ := split_on_back (show 47 ∉ ([58] : Bytes) by decide) w
  have split : (47 :: w ++ 58 :: 47 :: z).splitOn 47 = [] :: (ls ++ [l ++ [58]]) ++ z.splitOn 47 := by
    have shape : 47 :: w ++ 58 :: 47 :: z = [] ++ 47 :: ((w ++ [58]) ++ 47 :: z) := by simp
    rw [shape, List.splitOn_append_cons_self_of_not_mem (by simp), List.splitOn_append_cons_self, joint]
    rfl
  have middle : ¬ Numeral (l ++ [58]) := fun numeral => (numeral_no numeral).1 (by simp)
  have empty : ¬ Numeral [] := fun numeral => numeral.1 rfl
  rw [split, shape, shape, tokens, tokens', back]
  -- the tokens are those of the first path, its last one with the colon, and those of the second
  rcases last : z.splitOn 47 with _ | ⟨x, _ | ⟨y, _ | ⟨u, _ | ⟨v, xs⟩⟩⟩⟩
  · exact absurd (congrArg List.length last) (by rw [split_on_length]; simp)
  all_goals rcases ls with _ | ⟨a, _ | ⟨b, _ | ⟨c, _ | ⟨d, rest⟩⟩⟩⟩
  all_goals simp only [portTokens, port_only_iff, List.cons_append, List.nil_append]
  all_goals grind

def slashed (x r : Bytes) : Option Found :=
  match shape r with
  | .slash a host d => some ⟨some (x ++ [58]), some a, host, some d⟩
  | _ => none

theorem join_port_path (numeral : Numeral p) (path : PathText r) :
    findParts (p ++ 58 :: r) = (slashed p r <|> if r = [47] then none else some ⟨none, some p, r, none⟩) := by
  obtain ⟨colon, slash, bracket, _⟩ := numeral_no numeral
  have tokens : (p ++ 58 :: r).splitOn 58 = [p, r] := by
    rw [List.splitOn_append_cons_self_of_not_mem colon, List.splitOn_eq_singleton path.colon]
  have groups := ipv6_groups_none tokens (colon_head bracket r) (by simpa using path_head path []) (by simp)
  rw [findParts, slashes_behind slash path, groups, tokens]
  refine congrArg (slashed p r <|> ·) ?_
  by_cases root : r = [47]
  · rw [if_pos root]
    simp [portTokens, socketTokens, root_no_socket path root]
  · rw [if_neg root]
    simp [portTokens, socketTokens, port_only_iff.2 numeral, path_is_socket path root]

theorem join_host_path (plain : Plain h) (numeral : Numeral p) (path : PathText r) :
    findParts (h ++ 58 :: p ++ 58 :: r) =
      (slashed (h ++ 58 :: p) r <|> if r = [47] then none else some ⟨some h, some p, r, none⟩) := by
  obtain ⟨colon, slash, bracket, _⟩ := numeral_no numeral
  have tokens : (h ++ 58 :: p ++ 58 :: r).splitOn 58 = [h, p, r] := by
    rw [List.append_assoc, List.cons_append, List.splitOn_append_cons_self_of_not_mem plain.colon,
      List.splitOn_append_cons_self_of_not_mem colon, List.splitOn_eq_singleton path.colon]
  have first : (h ++ 58 :: p ++ 58 :: r).head? ≠ some 91 := by
    rw [List.append_assoc]
    exact colon_head plain.opening _
  have groups := ipv6_groups_none tokens first (by simpa using head_other bracket) (by simpa using path_head path [])
  have slashes : 47 ∉ h ++ 58 :: p := by simp [plain.slash, slash]
  have other := path_no_port path
  rw [findParts, slashes_behind slashes path, groups, tokens]
  refine congrArg (slashed (h ++ 58 :: p) r <|> ·) ?_
  by_cases root : r = [47]
  · rw [if_pos root]
    simp [portTokens, socketTokens, port_only_iff, other, root_no_socket path root]
  · rw [if_neg root]
    simp [portTokens, socketTokens, port_only_iff, numeral, other, path_is_socket path root]

theorem join_ipv6_path (address : AddressText v) (numeral : Numeral p) (path : PathText r) :
    findParts (bracketed v p ++ 58 :: r) = slashed (bracketed v p) r := by
  obtain ⟨_, _, _, clean, _⟩ := address_text address
  have slash : 47 ∉ bracketed v p := by simp [clean, (numeral_no numeral).2.1]
  have tail : capture hostTail r = none := by
    refine capture_none fun captures matched => ?_
    generalize r = s at matched path
    cases matched with
    | run _ _ rest =>
      cases rest with
      | lit _ rest => exact path.colon (by simp)
  have groups := address_groups address numeral r
  rw [ipv6_and_port_other (by simpa using path_head path []), tail] at groups
  have shape : bracketed v (p ++ 58 :: r) = bracketed v p ++ 58 :: r := by simp
  rw [shape] at groups
  rw [findParts, slashes_behind slash path, groups]
  change (slashed _ r <|> if v.all ipv6Byte then none else none) = _
  rw [ite_self]
  cases slashed (bracketed v p) r <;> rfl

theorem join_path_ipv6 (path : PathText q) (address : AddressText w) (numeral : Numeral n) :
    findParts (q ++ 58 :: bracketed w n) = none := by
  obtain ⟨_, _, _, clean, _⟩ := address_text address
  have slash : 47 ∉ bracketed w n := by simp [clean, (numeral_no numeral).2.1]
  obtain ⟨double, single⟩ := bracket_first_none (path_head path (58 :: bracketed w n))
  have middle : middleGroups (q ++ 58 :: bracketed w n) = none := by
    refine middle_none fun a c rest same => ?_
    rw [List.splitOn_append_cons_self_of_not_mem path.colon] at same
    rw [← (List.cons.inj same).1]
    exact path_no_port path
  obtain ⟨ports, sockets⟩ := address_many (s := q ++ 58 :: bracketed w n) address (by
    rw [List.count_append, List.count_cons_self, bracket_colons]
    omega)
  rw [findParts, slashes_before q slash, ipv6Groups, double, single, bracket_second_none path.colon, middle, ports,
    sockets]
  rfl

theorem join_path_host (path : PathText q) (plain : Plain h) (numeral : Numeral n) :
    findParts (q ++ 58 :: (h ++ 58 :: n)) = if q = [47] then none else some ⟨some q, none, h, some n⟩ := by
  obtain ⟨colon, slash, bracket, _⟩ := numeral_no numeral
  have tokens : (q ++ 58 :: (h ++ 58 :: n)).splitOn 58 = [q, h, n] := by
    rw [List.splitOn_append_cons_self_of_not_mem path.colon, List.splitOn_append_cons_self_of_not_mem plain.colon,
      List.splitOn_eq_singleton colon]
  have groups := ipv6_groups_none tokens (path_head path _) (by simpa using head_other plain.opening)
    (by simpa using head_other bracket)
  have slashes : 47 ∉ h ++ 58 :: n := by simp [plain.slash, slash]
  have other := path_no_port path
  rw [findParts, slashes_before q slashes, groups, tokens]
  by_cases root : q = [47]
  · rw [if_pos root]
    simp [portTokens, socketTokens, port_only_iff, other, root_no_socket path root, numeral_no_socket numeral]
  · rw [if_neg root]
    simp [portTokens, socketTokens, port_only_iff, numeral, other, path_is_socket path root, numeral_no_socket numeral]

theorem join_path_path (path : PathText q) (path' : PathText r) :
    findParts (q ++ 58 :: r) = ((match shape q, shape r with
        | .twin a host, .port d => some ⟨some [], some a, host ++ [58], some d⟩
        | _, _ => none) <|>
      if q = [47] then none else if r = [47] then none else some ⟨some q, none, r, none⟩) := by
  have tokens : (q ++ 58 :: r).splitOn 58 = [q, r] := by
    rw [List.splitOn_append_cons_self_of_not_mem path.colon, List.splitOn_eq_singleton path'.colon]
  have groups := ipv6_groups_none tokens (path_head path _) (by simpa using path_head path' []) (by simp)
  have other := path_no_port path
  have sockets : (none <|> portTokens [q, r] <|> socketTokens [q, r]) =
      if q = [47] then none else if r = [47] then none else some ⟨some q, none, r, none⟩ := by
    by_cases root : q = [47]
    · rw [if_pos root]
      simp [portTokens, socketTokens, port_only_iff, other, root_no_socket path root]
    · rw [if_neg root]
      by_cases root' : r = [47]
      · rw [if_pos root']
        simp [portTokens, socketTokens, port_only_iff, root_no_socket path' root']
      · rw [if_neg root']
        simp [portTokens, socketTokens, port_only_iff, other, path_is_socket path root, path_is_socket path' root']
  rw [findParts, slashes_paths path path', groups, tokens, sockets]

theorem apart_path (q : Bytes) : (Spec.path q).apart = if q = [47] then none else some (some q, none) := rfl

theorem find_parts_argued {b d : Spec} (bindOk : b.Ok) (destOk : d.Ok) (dest : d.Dest) :
    findParts (b.text ++ 58 :: d.text) = argued b d := by
  cases b with
  | port p =>
    cases d with
    | port n => exact dest.elim
    | host h n => exact join_port_host bindOk destOk.1 destOk.2
    | ipv6 w n =>
      refine (join_port_ipv6 bindOk destOk.1 destOk.2).trans ?_
      simp only [argued, joined, Spec.apart, Spec.reading]
      split <;> rfl
    | path r =>
      refine (join_port_path bindOk destOk).trans ?_
      simp only [slashed, argued, joined, apart_path]
      cases shape r <;> (simp only [Spec.apart, Spec.reading]; split <;> rfl)
  | host h p =>
    cases d with
    | port n => exact dest.elim
    | host h' n => exact join_host_host bindOk.1 bindOk.2 destOk.1 destOk.2
    | ipv6 w n =>
      refine (join_host_ipv6 bindOk.1 bindOk.2 destOk.1 destOk.2).trans ?_
      simp only [argued, joined, Spec.apart, Spec.reading]
      split <;> rfl
    | path r =>
      refine (join_host_path bindOk.1 bindOk.2 destOk).trans ?_
      simp only [slashed, argued, joined, apart_path]
      cases shape r <;> (simp only [Spec.apart, Spec.reading]; split <;> rfl)
  | ipv6 v p =>
    cases d with
    | port n => exact dest.elim
    | host h n =>
      refine (join_ipv6_host bindOk.1 bindOk.2 destOk.1 dest destOk.2).trans ?_
      simp only [argued, joined, Spec.apart, Spec.reading]
      split <;> rfl
    | ipv6 w n =>
      refine (join_ipv6_ipv6 bindOk.1 bindOk.2 destOk.1 destOk.2).trans ?_
      simp only [argued, joined, Spec.apart, Spec.reading]
      split
      · split <;> rfl
      · rfl
    | path r =>
      refine (join_ipv6_path bindOk.1 bindOk.2 destOk).trans ?_
      simp only [slashed, argued]
      cases shape r <;> rfl
  | path q =>
    cases d with
    | port n => exact dest.elim
    | host h n =>
      refine (join_path_host bindOk destOk.1 destOk.2).trans ?_
      simp only [argued, joined, Spec.apart, Spec.reading]
      split <;> rfl
    | ipv6 w n => exact join_path_ipv6 bindOk destOk.1 destOk.2
    | path r =>
      refine (join_path_path bindOk destOk).trans ?_
      have both : (if q = [47] then none else if r = [47] then none else some ⟨some q, none, r, none⟩) =
          joined (.path q) (.path r) := by
        simp only [joined, apart_path]
        split
        · rfl
        · split <;> rfl
      rw [both]
      simp only [argued]
      cases shape q <;> cases shape r <;> rfl

end Joined

section Agreement
variable {b d : Spec}

def ForwardCfg.ends (f : ForwardCfg) : Option Bytes × Int × Bytes × Int :=
  (f.bindAddr, f.bindPort, f.destHost, f.destPort)

theorem spec_text (ok : b.Ok) : Unbroken spaceUnits b.text ∧ b.text ≠ [] ∧ 37 ∉ b.text := by
  have colon : ∀ u ∈ spaceUnits, (58 : UInt8) ∉ u := by decide
  cases b with
  | port p => exact ⟨numeral_unbroken ok, ok.1, (numeral_no ok).2.2.2.2.1⟩
  | host h p =>
    refine ⟨unbroken_join colon ok.1.unbroken (numeral_unbroken ok.2), by simp [Spec.text], ?_⟩
    simp [Spec.text, ok.1.percent, (numeral_no ok.2).2.2.2.2.1]
  | ipv6 v p =>
    obtain ⟨_, _, _, _, percent⟩ := address_text ok.1
    refine ⟨unbroken_clean ?_, by simp [Spec.text], ?_⟩
    · have apart : ∀ u ∈ spaceUnits, ∀ c ∈ u, ipv6Byte c = false ∧ c ≠ 46 ∧ c ≠ 91 ∧ c ≠ 93 ∧ c ≠ 58 ∧
          decimalByte c = false := by decide +kernel
      intro u member c inside
      obtain ⟨hex, dotted, opening, closing, separator, digit⟩ := apart u member c inside
      have address : c ∉ v := by
        intro found
        rcases ok.1.bytes c found with yes | yes
        · rw [hex] at yes
          cases yes
        · exact dotted yes
      simp [Spec.text, opening, closing, separator, address, numeral_clean ok.2 digit]
    · simp [Spec.text, percent, (numeral_no ok.2).2.2.2.2.1]
  | path q =>
    refine ⟨ok.unbroken, ?_, ok.percent⟩
    rintro empty
    have absolute := ok.absolute
    rw [show q = [] from empty] at absolute
    cases absolute

/-- What splitEnd and the pattern for sockets find in an end that is not a port. -/
theorem end_reading (ok : b.Ok) (noPort : ∀ p, b ≠ .port p) :
    ((splitEnd b.text).map (fun x => (some x.1, some x.2)) <|>
      if matchString unixSocketRegexp b.text then some (some b.text, none) else none) = b.reading := by
  cases b with
  | port p => exact absurd rfl (noPort p)
  | host h p =>
    rw [Spec.text, split_end_host ok.1 ok.2]
    rfl
  | ipv6 v p =>
    have path : ¬ matchString unixSocketRegexp (bracketed v p) = true := fun socket => by
      obtain ⟨w, same, _⟩ := unix_socket_iff.1 socket
      cases same
    rw [Spec.text, split_end_ipv6 ok.1 ok.2, if_neg path, Spec.reading]
    split <;> rfl
  | path q =>
    have root := shape_root ok
    rw [Spec.text, split_end_path ok, Spec.reading, path_socket ok]
    cases shaped : shape q <;> simp_all

theorem port_value_some (p : Bytes) : portValue (some p) = (parseUintSized 10 16 p).map Int.ofNat := rfl

theorem parse_bind_reading (ok : b.Ok) :
    (parseBindCfg b.text).toOption.map (fun c => (c.addr, c.port)) =
      b.reading.bind fun x => (portValue x.2).map (x.1, ·) := by
  have value (str : Bytes) (addr : Option Bytes) (p : Bytes) :
      (newBindArg str addr p).toOption.map (fun c => (c.addr, c.port)) = (portValue (some p)).map (addr, ·) := by
    rw [newBindArg, port_value_some]
    cases parseUintSized 10 16 p <;> rfl
  unfold parseBindCfg
  rw [unbroken_trim (spec_text ok).1]
  dsimp only
  by_cases port : ∃ p, b = .port p
  · obtain ⟨p, rfl⟩ := port
    rw [Spec.text, if_pos (port_only_iff.2 ok), value]
    rfl
  · have other : ¬ matchString portOnlyRegexp b.text = true := fun numeral => by
      have clean := numeral_no (port_only_iff.1 numeral)
      cases b with
      | port p => exact port ⟨p, rfl⟩
      | host h p => exact clean.1 (by simp [Spec.text])
      | ipv6 v p => exact clean.1 (by simp [Spec.text])
      | path q => exact path_no_port ok (port_only_iff.1 numeral)
    rw [if_neg other, ← end_reading ok fun p same => port ⟨p, same⟩]
    cases splitEnd b.text with
    | some found => exact value _ _ _
    | none =>
      dsimp only
      split <;> rfl

theorem parse_dest_reading (ok : d.Ok) (dest : d.Dest) (udp : Bool) (str : Bytes) (cfg : BindCfg) :
    (parseDest udp str cfg d.text).toOption.map ForwardCfg.ends =
      d.reading.bind fun y => (portValue y.2).map fun n => (cfg.addr, cfg.port, y.1.getD [], n) := by
  have noPort : ∀ p, d ≠ .port p := by
    rintro p rfl
    exact dest
  unfold parseDest
  rw [← end_reading ok noPort]
  cases splitEnd d.text with
  | some found =>
    change _ = (portValue (some found.2)).map _
    rw [port_value_some]
    dsimp only
    cases parseUintSized 10 16 found.2 <;> rfl
  | none =>
    dsimp only
    split <;> rfl

/-- The forward that two readings give, where both ports are numbers. -/
def forward (x y : Option (Option Bytes × Option Bytes)) : Option (Option Bytes × Int × Bytes × Int) :=
  x.bind fun x => (portValue x.2).bind fun m => y.bind fun y => (portValue y.2).map fun n => (x.1, m, y.1.getD [], n)

theorem forward_bind (x y : Option (Option Bytes × Option Bytes)) :
    forward x y = (x.bind fun x => (portValue x.2).map (x.1, ·)).bind fun z =>
      y.bind fun y => (portValue y.2).map fun n => (z.1, z.2, y.1.getD [], n) := by
  unfold forward
  cases x with
  | none => rfl
  | some x =>
    rw [Option.bind_some, Option.bind_some]
    cases portValue x.2 with
    | none => rfl
    | some m => rfl

def Found.value (f : Found) : Option (Option Bytes × Int × Bytes × Int) :=
  (portValue f.bindPort).bind fun m => (portValue f.destPort).map fun n => (f.bindAddr, m, f.destHost, n)

theorem joined_value (b d : Spec) : (joined b d).bind Found.value = forward b.apart d.apart := by
  unfold joined forward Found.value
  cases b.apart with
  | none => rfl
  | some x =>
    cases d.apart with
    | none =>
      simp only [Option.bind_some, Option.map_none, Option.bind_none]
      cases portValue x.2 <;> rfl
    | some y => rfl

theorem port_number_value (str : Bytes) (port : Option Bytes) : (portNumber str port).toOption = portValue port := by
  cases port with
  | none => rfl
  | some p =>
    rw [portNumber, port_value_some]
    cases parseUintSized 10 16 p <;> rfl

theorem parse_cfg_forward (bindOk : b.Ok) (destOk : d.Ok) (dest : d.Dest) (param : SshParam) (udp : Bool) :
    (parseForwardCfg param udp (b.text ++ 32 :: d.text)).toOption.map ForwardCfg.ends =
      forward b.reading d.reading := by
  obtain ⟨bindWord, bindSome, bindPercent⟩ := spec_text bindOk
  obtain ⟨destWord, destSome, destPercent⟩ := spec_text destOk
  have percent : 37 ∉ b.text ++ 32 :: d.text := by simp [bindPercent, destPercent]
  have words : fields (b.text ++ 32 :: d.text) = [b.text, d.text] := by
    have gap : Made spaceUnits [32] := made_unit (by decide)
    rw [← List.singleton_append, fields_word bindWord bindSome gap (by simp), fields_last destWord destSome]
  unfold parseForwardCfg
  rw [expandTokens, if_neg percent]
  dsimp only
  rw [words]
  dsimp only
  rw [forward_bind, ← parse_bind_reading bindOk]
  cases parseBindCfg b.text with
  | error cause => rfl
  | ok cfg => exact parse_dest_reading destOk dest udp _ cfg

theorem parse_arg_forward (bindOk : b.Ok) (destOk : d.Ok) (dest : d.Dest)
    (tcp : isUdpPrefix (b.text ++ 58 :: d.text) = false) :
    (parseForwardArg (b.text ++ 58 :: d.text)).toOption.map ForwardCfg.ends = (argued b d).bind Found.value := by
  have colon : ∀ u ∈ spaceUnits, (58 : UInt8) ∉ u := by decide
  have word := unbroken_join colon (spec_text bindOk).1 (spec_text destOk).1
  unfold parseForwardArg
  rw [unbroken_trim word]
  dsimp only
  rw [tcp, if_neg (by decide), find_parts_argued bindOk destOk dest]
  cases argued b d with
  | none => rfl
  | some found =>
    rw [Option.bind_some, Found.value, ← port_number_value (b.text ++ 58 :: d.text) found.bindPort,
      ← port_number_value (b.text ++ 58 :: d.text) found.destPort]
    dsimp only
    cases portNumber (b.text ++ 58 :: d.text) found.bindPort with
    | error cause => rfl
    | ok m =>
      cases portNumber (b.text ++ 58 :: d.text) found.destPort with
      | error cause => rfl
      | ok n => rfl

end Agreement

section Exactness
variable {b d : Spec} {x y : Option (Option Bytes × Option Bytes)}

theorem forward_none_iff : forward x y = none ↔ ¬ (Taken x ∧ Taken y) := by
  unfold forward Taken
  cases x with
  | none => simp
  | some x =>
    cases first : portValue x.2 with
    | none => simp [first]
    | some m =>
      cases y with
      | none => simp
      | some y => cases second : portValue y.2 <;> simp [first, second]

theorem path_filled (path : PathText q) : q ≠ [] := by
  rintro rfl
  cases path.absolute

theorem two_paths_iff (path : PathText q) (path' : PathText r) :
    forward (Spec.path q).reading (Spec.path r).reading = (argued (.path q) (.path r)).bind Found.value ↔
      Clear (.path q) (.path r) := by
  have filled := path_filled path
  have root := shape_root path
  have root' := shape_root path'
  simp only [argued, Clear, Spec.reading]
  cases shaped : shape q <;> cases shaped' : shape r <;>
    simp_all [joined_value, apart_path, forward, Found.value, portValue, InRange, Option.bind_eq_some_iff]
  -- the form with slashes across the colon, against a path and an empty host
  case twin.port n host m => cases parseUintSized 10 16 n <;> cases parseUintSized 10 16 m <;> simp_all

theorem clear_iff (bindOk : b.Ok) (destOk : d.Ok) (dest : d.Dest) :
    forward b.reading d.reading = (argued b d).bind Found.value ↔ Clear b d := by
  cases d with
  | port n => exact dest.elim
  | host h n =>
    cases b with
    | path q =>
      have filled := path_filled bindOk
      have root := shape_root bindOk
      simp only [argued, joined_value, Clear, apart_path, Spec.reading]
      cases shaped : shape q <;> simp_all [forward, portValue, InRange, Spec.apart, Spec.reading]
      case port m => cases parseUintSized 10 16 n <;> cases parseUintSized 10 16 m <;> simp_all
    | _ => simp only [argued, joined_value, Spec.apart, Clear]
  | ipv6 w n =>
    cases b with
    | path q => exact forward_none_iff
    | _ => simp only [argued, joined_value, Spec.apart, Clear]
  | path r =>
    have filled := path_filled destOk
    have root := shape_root destOk
    cases b with
    | path q => exact two_paths_iff bindOk destOk
    | ipv6 v p =>
      have long : (Spec.ipv6 v p).text ++ [58] ≠ v := fun same => by
        have := congrArg List.length same
        simp [Spec.text] at this
        omega
      simp only [argued, Clear, Spec.Readable]
      cases shaped : shape r
      case slash n host m =>
        simp only [Spec.reading, forward, portValue, InRange, Taken, Found.value, Option.bind_some, shaped]
        cases v.all ipv6Byte <;> cases parseUintSized 10 16 n <;> cases parseUintSized 10 16 m <;>
          cases read : parseUintSized 10 16 p <;> simp_all
      all_goals exact forward_none_iff
    | port p =>
      simp only [argued, Clear, Spec.reading]
      cases shaped : shape r <;>
        simp_all [joined_value, forward, portValue, InRange, Found.value, Spec.apart, Spec.reading]
      case port n => cases parseUintSized 10 16 n <;> cases parseUintSized 10 16 p <;> simp_all
      case slash n host m =>
        cases parseUintSized 10 16 n <;> cases parseUintSized 10 16 p <;> cases parseUintSized 10 16 m <;> simp_all
    | host h p =>
      have long : (Spec.host h p).text ++ [58] ≠ h := fun same => by
        have := congrArg List.length same
        simp [Spec.text] at this
      simp only [argued, Clear, Spec.reading]
      cases shaped : shape r <;>
        simp_all [joined_value, forward, portValue, InRange, Found.value, Spec.apart, Spec.reading]
      case port n => cases parseUintSized 10 16 n <;> cases parseUintSized 10 16 p <;> simp_all
      case slash n host m =>
        cases parseUintSized 10 16 n <;> cases parseUintSized 10 16 p <;> cases parseUintSized 10 16 m <;> simp_all

theorem ends_agree {u v : Except SpecError ForwardCfg} :
    (((∃ f, u = .ok f) ↔ ∃ g, v = .ok g) ∧ ∀ f g, u = .ok f → v = .ok g →
      f.bindAddr = g.bindAddr ∧ f.bindPort = g.bindPort ∧ f.destHost = g.destHost ∧ f.destPort = g.destPort) ↔
      u.toOption.map ForwardCfg.ends = v.toOption.map ForwardCfg.ends := by
  cases u with
  | error cause =>
    cases v with
    | error cause' => simp [Except.toOption]
    | ok g => simp [Except.toOption]
  | ok f =>
    cases v with
    | error cause' => simp [Except.toOption]
    | ok g => simp [Except.toOption, ForwardCfg.ends]

/-- For every bind end and every destination the joined text and the two words give the same
    forward, or neither gives one, exactly if the pair is clear. -/
theorem forward_specs_agree (param : SshParam) (udp : Bool) {b d : Spec} (bindOk : b.Ok) (destOk : d.Ok)
    (dest : d.Dest) (tcp : isUdpPrefix (b.text ++ 58 :: d.text) = false) :
    (((∃ f, parseForwardArg (b.text ++ 58 :: d.text) = .ok f) ↔
        ∃ g, parseForwardCfg param udp (b.text ++ 32 :: d.text) = .ok g) ∧
      ∀ f g, parseForwardArg (b.text ++ 58 :: d.text) = .ok f →
        parseForwardCfg param udp (b.text ++ 32 :: d.text) = .ok g →
        f.bindAddr = g.bindAddr ∧ f.bindPort = g.bindPort ∧ f.destHost = g.destHost ∧ f.destPort = g.destPort) ↔
    Clear b d := by
  rw [ends_agree, parse_arg_forward bindOk destOk dest tcp, parse_cfg_forward bindOk destOk dest param udp, eq_comm]
  exact clear_iff bindOk destOk dest

theorem bracketed_bind_agrees :
    ∃ f g, parseForwardArg (text "[::1]:8080:db:5432") = .ok f ∧
      parseForwardCfg office false (text "[::1]:8080 db:5432") = .ok g ∧
      f.bindAddr = g.bindAddr ∧ f.bindPort = g.bindPort ∧ f.destHost = g.destHost ∧ f.destPort = g.destPort := by
  have bindOk : (Spec.ipv6 (text "::1") (text "8080")).Ok :=
    ⟨⟨by decide +kernel, by decide⟩, by decide⟩
  have plain : Plain (text "db") :=
    ⟨by decide, by decide, by decide, by decide, by decide, unbroken_clean (by decide +kernel)⟩
  have destOk : (Spec.host (text "db") (text "5432")).Ok := ⟨plain, by decide⟩
  have named : text "db" ≠ [] := by decide
  obtain ⟨both, same⟩ := (forward_specs_agree office false bindOk destOk named (by decide)).2 trivial
  have argued : ∃ f, parseForwardArg (text "[::1]:8080:db:5432") = .ok f := ⟨_, rfl⟩
  obtain ⟨f, argument⟩ := argued
  obtain ⟨g, config⟩ := both.1 ⟨f, argument⟩
  exact ⟨f, g, argument, config, same f g argument config⟩

/-- A bracketed bind address and a socket path: the configuration file takes the pair, the
    command line refuses it. -/
theorem bracketed_bind_to_path_refused :
    (Spec.ipv6 (text "::1") (text "8080")).Ok ∧ (Spec.path (text "/run/d.sock")).Ok ∧
    (Spec.path (text "/run/d.sock")).Dest ∧ isUdpPrefix (text "[::1]:8080:/run/d.sock") = false ∧
    (parseForwardArg (text "[::1]:8080:/run/d.sock")).toOption.map ForwardCfg.ends = none ∧
    (parseForwardCfg office false (text "[::1]:8080 /run/d.sock")).toOption.map ForwardCfg.ends =
      some (some (text "::1"), 8080, text "/run/d.sock", -1) := by
  refine ⟨⟨⟨by decide +kernel, by decide⟩, by decide⟩, ⟨rfl, by decide, by decide, unbroken_clean (by decide +kernel)⟩,
    trivial, by decide, by decide +kernel, by decide +kernel⟩

end Exactness

end ForwardSpecs
