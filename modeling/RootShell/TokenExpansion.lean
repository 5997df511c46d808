import RootShell.RuneText

/-!
The percent tokens of configuration values: expandTokens of tssh/tokens.go. A string
without a percent sign is returned as it is; any other is written anew rune by rune.
-/
namespace TokenExpansion
open ByteLines ByteText RuneText

variable {tokens s first : Bytes}

structure SshParam where
  host : Bytes
  port : Bytes
  user : Bytes
  destination : Bytes
  proxies : List Bytes
  hostKeyAlias : Bytes
  hostname : Bytes
  sha1Hex : Bytes → Bytes

inductive TokenError
  | notSupported (c : Nat)
  | notSupportedYet (c : Nat)
  | invalid (what value : Bytes)
  | endsWithPercent
  deriving DecidableEq, Repr

def TokenError.message (str : Bytes) : TokenError → Bytes
  | .notSupported c => text "token [%" ++ encodeRune c ++ text "] in [" ++ str ++ text "] is not supported"
  | .notSupportedYet c => text "token [%" ++ encodeRune c ++ text "] in [" ++ str ++ text "] is not supported yet"
  | .invalid what value => what ++ text " [" ++ value ++ text "] contains invalid characters"
  | .endsWithPercent => text "[" ++ str ++ text "] ends with % is invalid"

section Checks

def shellBytes : Bytes := [39, 96, 34, 36, 92, 59, 38, 60, 62, 124, 40, 41, 123, 125]

def isSpace (r : Nat) : Bool :=
  [9, 10, 11, 12, 13, 32, 0x85, 0xA0, 0x1680, 0x2028, 0x2029, 0x202F, 0x205F, 0x3000].contains r ||
    (0x2000 ≤ r && r ≤ 0x200A)

def isControl (r : Nat) : Bool := r < 0x20 || (0x7F ≤ r && r < 0xA0)

def isHostValid (host : Bytes) : Bool :=
  host.head? != some 45 &&
    (runes host).all fun ch => !((shellBytes.map UInt8.toNat).contains ch || isSpace ch || isControl ch)

def dashAfterBlank : Bytes → Bool
  | b :: c :: s => ([9, 10, 12, 13, 32].contains b && c == 45) || dashAfterBlank (c :: s)
  | _ => false

def isUserValid (user : Bytes) : Bool :=
  user.head? != some 45 &&
    !(user.any fun b => [39, 96, 34, 59, 38, 60, 62, 124, 40, 41, 123, 125].contains b) &&
    !dashAfterBlank user && user.getLast? != some 92

def isPortValid (port : Bytes) : Bool := (runes port).all fun ch => 48 ≤ ch && ch ≤ 57

def checked (valid : Bytes → Bool) (what value : Bytes) : Except TokenError Bytes :=
  if valid value then .ok value else .error (.invalid what value)

end Checks

def containsRune (s : Bytes) (c : Nat) : Bool := (runes s).contains c

def lastProxy (param : SshParam) : Option Bytes := param.proxies.getLast?

def tokenValue (param : SshParam) (tokens : Bytes) (c : Nat) : Except TokenError Bytes :=
  if c = 37 then .ok [37]
  else if c = 104 then checked isHostValid (text "host") param.host
  else if c = 112 then checked isPortValid (text "port") param.port
  else if c = 114 then checked isUserValid (text "user") param.user
  else if c = 110 then checked isHostValid (text "destination") param.destination
  else if c = 108 then .ok param.hostname
  else if c = 76 then .ok (param.hostname.takeWhile (· != 46))
  else if c = 106 then
    match lastProxy param with
    | some proxy => checked isHostValid (text "proxy") proxy
    | none => .ok []
  else if c = 67 then
    .ok (param.sha1Hex (param.hostname ++ param.host ++ param.port ++ param.user ++
      if containsRune tokens 106 then (lastProxy param).getD [] else []))
  else if c = 107 then
    if param.hostKeyAlias ≠ [] then checked isHostValid (text "HostKeyAlias") param.hostKeyAlias
    else checked isHostValid (text "destination") param.destination
  else .error (.notSupportedYet c)

/-- The loop over the runes; `escaped` is the state after a percent sign. -/
def expandLoop (param : SshParam) (tokens : Bytes) : Bool → Bytes → List Nat → Except TokenError Bytes
  | escaped, buf, [] => if escaped then .error .endsWithPercent else .ok buf
  | false, buf, c :: cs =>
    if c = 37 then expandLoop param tokens true buf cs else expandLoop param tokens false (buf ++ encodeRune c) cs
  | true, buf, c :: cs =>
    if containsRune tokens c then
      match tokenValue param tokens c with
      | .ok value => expandLoop param tokens false (buf ++ value) cs
      | .error e => .error e
    else .error (.notSupported c)

def expandTokens (str : Bytes) (param : SshParam) (tokens : Bytes) : Except TokenError Bytes :=
  if 37 ∈ str then expandLoop param tokens false [] (runes str) else .ok str

section Pieces

inductive Piece
  | literal (s : Bytes)
  | token (c : UInt8) (value : Bytes)

def Piece.text : Piece → Bytes
  | .literal s => s
  | .token c _ => [37, c]

def Piece.value : Piece → Bytes
  | .literal s => s
  | .token _ value => value

def Piece.Ok (param : SshParam) (tokens : Bytes) : Piece → Prop
  | .literal s => 37 ∉ s
  | .token c value => containsRune tokens c.toNat = true ∧ tokenValue param tokens c.toNat = .ok value

def Piece.isLiteral : Piece → Bool
  | .literal _ => true
  | .token _ _ => false

def textOf (pieces : List Piece) : Bytes := pieces.flatMap Piece.text

def valueOf (pieces : List Piece) : Bytes := pieces.flatMap Piece.value

def cutTokens : List Piece → Bytes × List (UInt8 × Bytes × Bytes)
  | [] => ([], [])
  | .literal s :: pieces => (s ++ (cutTokens pieces).1, (cutTokens pieces).2)
  | .token c value :: pieces => ([], (c, value, (cutTokens pieces).1) :: (cutTokens pieces).2)

def literalRuns (pieces : List Piece) : List Bytes :=
  (cutTokens pieces).1 :: (cutTokens pieces).2.map fun part => part.2.2

end Pieces

section Scanning
variable {param : SshParam}

theorem expand_literal_runes {rs : List Nat} (clean : 37 ∉ rs) (buf : Bytes) (cs : List Nat) :
    expandLoop param tokens false buf (rs ++ cs) =
      expandLoop param tokens false (buf ++ rs.flatMap encodeRune) cs := by
  induction rs generalizing buf with
  | nil => simp
  | cons r rs ih =>
    have other : r ≠ 37 := fun same => clean (by simp [same])
    have rest : 37 ∉ rs := fun member => clean (by simp [member])
    rw [List.cons_append, expandLoop, if_neg other, ih rest, List.flatMap_cons, List.append_assoc]

theorem token_value_large {c : Nat} (large : 0x80 ≤ c) : tokenValue param tokens c = .error (.notSupportedYet c) := by
  rw [tokenValue, if_neg (by omega), if_neg (by omega), if_neg (by omega), if_neg (by omega), if_neg (by omega),
    if_neg (by omega), if_neg (by omega), if_neg (by omega), if_neg (by omega), if_neg (by omega)]

theorem token_ascii {c : UInt8} {value : Bytes} (found : tokenValue param tokens c.toNat = .ok value) : c < 0x80 := by
  by_contra large
  rw [token_value_large (UInt8.le_iff_toNat_le.1 (UInt8.not_lt.1 large))] at found
  cases found

theorem expand_literal (clean : 37 ∉ s) (buf : Bytes) (cs : List Nat) :
    expandLoop param tokens false buf (runes s ++ cs) = expandLoop param tokens false (buf ++ sanitize s) cs :=
  expand_literal_runes (ascii_rune (by decide) clean) buf cs

theorem expand_token {c : UInt8} {value : Bytes} (clean : 37 ∉ s) (supported : containsRune tokens c.toNat = true)
    (found : tokenValue param tokens c.toNat = .ok value) (buf t : Bytes) :
    expandLoop param tokens false buf (runes (s ++ 37 :: c :: t)) =
      expandLoop param tokens false (buf ++ sanitize s ++ value) (runes t) := by
  have next : runes (c :: t) = c.toNat :: runes t := by
    rw [← List.nil_append (c :: t), runes_append_ascii (token_ascii found)]
    rfl
  rw [runes_append_ascii (by decide), expand_literal clean, next, expandLoop, if_pos (by rfl), expandLoop,
    if_pos supported, found]

def writtenParts : Bytes × List (UInt8 × Bytes × Bytes) → Bytes
  | (first, rest) => sanitize first ++ rest.flatMap fun part => part.2.1 ++ sanitize part.2.2

def partsText : Bytes × List (UInt8 × Bytes × Bytes) → Bytes
  | (first, rest) => first ++ rest.flatMap fun part => 37 :: part.1 :: part.2.2

def partsValue : Bytes × List (UInt8 × Bytes × Bytes) → Bytes
  | (first, rest) => first ++ rest.flatMap fun part => part.2.1 ++ part.2.2

structure PartsOk (param : SshParam) (tokens : Bytes) (parts : Bytes × List (UInt8 × Bytes × Bytes)) : Prop where
  first : 37 ∉ parts.1
  after : ∀ part ∈ parts.2, 37 ∉ part.2.2
  supported : ∀ part ∈ parts.2, containsRune tokens part.1.toNat = true
  found : ∀ part ∈ parts.2, tokenValue param tokens part.1.toNat = .ok part.2.1

theorem expand_parts {rest : List (UInt8 × Bytes × Bytes)} (ok : PartsOk param tokens (first, rest)) (buf : Bytes) :
    expandLoop param tokens false buf (runes (partsText (first, rest))) = .ok (buf ++ writtenParts (first, rest)) := by
  induction rest generalizing first buf with
  | nil =>
    have scanned : expandLoop param tokens false buf (runes first ++ []) =
        expandLoop param tokens false (buf ++ sanitize first) [] := expand_literal ok.first buf []
    rw [List.append_nil] at scanned
    simp [partsText, writtenParts, scanned, expandLoop]
  | cons part rest ih =>
    obtain ⟨c, value, after⟩ := part
    have later : PartsOk param tokens (after, rest) :=
      ⟨ok.after (c, value, after) (by simp), fun p member => ok.after p (by simp [member]),
       fun p member => ok.supported p (by simp [member]), fun p member => ok.found p (by simp [member])⟩
    have whole : partsText (first, (c, value, after) :: rest) = first ++ 37 :: c :: partsText (after, rest) := by
      simp [partsText]
    rw [whole, expand_token ok.first (ok.supported _ List.mem_cons_self) (ok.found _ List.mem_cons_self), ih later]
    simp [writtenParts]

theorem parts_cons (first after value : Bytes) (c : UInt8) (rest : List (UInt8 × Bytes × Bytes)) :
    writtenParts (first, (c, value, after) :: rest) = sanitize first ++ (value ++ writtenParts (after, rest)) ∧
      partsValue (first, (c, value, after) :: rest) = first ++ (value ++ partsValue (after, rest)) := by
  simp [writtenParts, partsValue]

theorem written_length (first : Bytes) (rest : List (UInt8 × Bytes × Bytes)) :
    (partsValue (first, rest)).length ≤ (writtenParts (first, rest)).length := by
  induction rest generalizing first with
  | nil => simpa [partsValue, writtenParts] using sanitize_length first
  | cons part rest ih =>
    obtain ⟨c, value, after⟩ := part
    have here := sanitize_length first
    have later := ih after
    rw [(parts_cons first after value c rest).1, (parts_cons first after value c rest).2]
    simp only [List.length_append]
    omega

theorem written_eq_iff (first : Bytes) (rest : List (UInt8 × Bytes × Bytes)) :
    writtenParts (first, rest) = partsValue (first, rest) ↔
      validString first = true ∧ ∀ part ∈ rest, validString part.2.2 = true := by
  induction rest generalizing first with
  | nil => simp [writtenParts, partsValue, sanitize_eq_iff]
  | cons part rest ih =>
    obtain ⟨c, value, after⟩ := part
    rw [(parts_cons first after value c rest).1, (parts_cons first after value c rest).2, List.forall_mem_cons,
      ← ih after, ← sanitize_eq_iff]
    constructor
    · intro same
      -- nothing gets shorter, so both parts keep their length
      have here := sanitize_length first
      have later := written_length after rest
      have lengths := congrArg List.length same
      simp only [List.length_append] at lengths
      obtain ⟨left, right⟩ := List.append_inj same (by omega)
      exact ⟨left, List.append_cancel_left right⟩
    · rintro ⟨left, right⟩
      rw [left, right]

end Scanning

section Cutting
variable {param : SshParam} {pieces : List Piece}

theorem cut_text (pieces : List Piece) : partsText (cutTokens pieces) = textOf pieces := by
  induction pieces with
  | nil => rfl
  | cons piece pieces ih =>
    cases piece with
    | literal s => simpa [partsText, cutTokens, textOf, Piece.text] using ih
    | token c value => simpa [partsText, cutTokens, textOf, Piece.text] using ih

theorem cut_value (pieces : List Piece) : partsValue (cutTokens pieces) = valueOf pieces := by
  induction pieces with
  | nil => rfl
  | cons piece pieces ih =>
    cases piece with
    | literal s => simpa [partsValue, cutTokens, valueOf, Piece.value] using ih
    | token c value => simpa [partsValue, cutTokens, valueOf, Piece.value] using ih

theorem cut_ok (ok : ∀ piece ∈ pieces, piece.Ok param tokens) : PartsOk param tokens (cutTokens pieces) := by
  induction pieces with
  | nil => exact ⟨by simp [cutTokens], by simp [cutTokens], by simp [cutTokens], by simp [cutTokens]⟩
  | cons piece pieces ih =>
    have later := ih fun other member => ok other (by simp [member])
    have now := ok piece (by simp)
    cases piece with
    | literal s =>
      have clean : 37 ∉ s ++ (cutTokens pieces).1 := by simp [show 37 ∉ s from now, later.first]
      exact ⟨clean, later.after, later.supported, later.found⟩
    | token c value =>
      exact ⟨by simp [cutTokens], List.forall_mem_cons.2 ⟨later.first, later.after⟩,
        List.forall_mem_cons.2 ⟨now.1, later.supported⟩, List.forall_mem_cons.2 ⟨now.2, later.found⟩⟩

theorem percent_iff (ok : ∀ piece ∈ pieces, piece.Ok param tokens) :
    37 ∉ textOf pieces ↔ ∀ piece ∈ pieces, piece.isLiteral = true := by
  induction pieces with
  | nil => simp [textOf]
  | cons piece pieces ih =>
    have later := ih fun other member => ok other (by simp [member])
    have now := ok piece (by simp)
    cases piece with
    | literal s =>
      have clean : 37 ∉ s := now
      simpa [textOf, Piece.text, Piece.isLiteral, clean] using later
    | token c value => simp [textOf, Piece.text, Piece.isLiteral]

theorem expand_pieces (ok : ∀ piece ∈ pieces, piece.Ok param tokens) :
    expandTokens (textOf pieces) param tokens =
      .ok (if 37 ∈ textOf pieces then writtenParts (cutTokens pieces) else textOf pieces) := by
  unfold expandTokens
  split
  · rw [← cut_text, expand_parts (cut_ok ok) [], List.nil_append]
  · rfl

theorem value_literals (plain : ∀ piece ∈ pieces, piece.isLiteral = true) : valueOf pieces = textOf pieces := by
  refine List.flatMap_congr fun piece member => ?_
  cases piece with
  | literal s => rfl
  | token c value => cases plain _ member

theorem runs_append (ps qs : List Piece) :
    ∃ front last first back, literalRuns ps = front ++ [last] ∧ literalRuns qs = first :: back ∧
      literalRuns (ps ++ qs) = front ++ (last ++ first) :: back := by
  induction ps with
  | nil => exact ⟨[], [], _, _, rfl, rfl, rfl⟩
  | cons piece ps ih =>
    obtain ⟨front, last, first, back, left, right, whole⟩ := ih
    cases piece with
    | literal s =>
      have longer : ∀ pieces, literalRuns (.literal s :: pieces) = (literalRuns pieces).modifyHead (s ++ ·) :=
        fun pieces => rfl
      rw [List.cons_append, longer, longer, left, whole]
      cases front with
      | nil => exact ⟨[], s ++ last, first, back, rfl, right, by simp⟩
      | cons run front => exact ⟨(s ++ run) :: front, last, first, back, rfl, right, rfl⟩
    | token c value =>
      have longer : ∀ pieces, literalRuns (.token c value :: pieces) = [] :: literalRuns pieces := fun pieces => rfl
      rw [List.cons_append, longer, longer, left, whole]
      exact ⟨[] :: front, last, first, back, rfl, right, rfl⟩

theorem runs_append_valid {ps qs : List Piece} (valid : ∀ run ∈ literalRuns ps, validString run = true)
    (others : ∀ run ∈ literalRuns qs, validString run = true) :
    ∀ run ∈ literalRuns (ps ++ qs), validString run = true := by
  obtain ⟨front, last, first, back, left, right, whole⟩ := runs_append ps qs
  rw [left] at valid
  rw [right] at others
  rw [whole]
  intro run member
  rcases List.mem_append.1 member with early | late
  · exact valid run (by simp [early])
  · rcases List.mem_cons.1 late with rfl | later
    · exact valid_append (valid last (by simp)) (others first (by simp))
    · exact others run (by simp [later])

theorem expand_valid (ok : ∀ piece ∈ pieces, piece.Ok param tokens)
    (valid : ∀ run ∈ literalRuns pieces, validString run = true) :
    expandTokens (textOf pieces) param tokens = .ok (valueOf pieces) := by
  rw [expand_pieces ok]
  split
  · rw [← cut_value, (written_eq_iff _ _).2 ⟨valid _ List.mem_cons_self, ?_⟩]
    intro part member
    exact valid _ (List.mem_cons_of_mem _ (List.mem_map_of_mem member))
  · rename_i plain
    rw [value_literals ((percent_iff ok).1 plain)]

end Cutting

/-- Tokens are expanded and the text around them is returned unchanged exactly when there
    is no token or every run of text between tokens is valid UTF-8; where the runs are
    valid, expansion goes piece by piece. -/
theorem token_expansion_exact (param : SshParam) (tokens : Bytes) :
    (∀ pieces : List Piece, (∀ piece ∈ pieces, piece.Ok param tokens) →
      (expandTokens (textOf pieces) param tokens = .ok (valueOf pieces) ↔
        (∀ piece ∈ pieces, piece.isLiteral = true) ∨ ∀ run ∈ literalRuns pieces, validString run = true)) ∧
    ∀ ps qs : List Piece, (∀ piece ∈ ps ++ qs, piece.Ok param tokens) →
      (∀ run ∈ literalRuns ps, validString run = true) → (∀ run ∈ literalRuns qs, validString run = true) →
      ∃ a b, expandTokens (textOf ps) param tokens = .ok a ∧ expandTokens (textOf qs) param tokens = .ok b ∧
        expandTokens (textOf (ps ++ qs)) param tokens = .ok (a ++ b) := by
  constructor
  · intro pieces ok
    constructor
    · intro exact_value
      by_cases percent : 37 ∈ textOf pieces
      · rw [expand_pieces ok, if_pos percent, Except.ok.injEq, ← cut_value] at exact_value
        obtain ⟨first, rest⟩ := (written_eq_iff _ _).1 exact_value
        exact Or.inr (List.forall_mem_cons.2 ⟨first, List.forall_mem_map.2 rest⟩)
      · exact Or.inl ((percent_iff ok).1 percent)
    · rintro (plain | valid)
      · rw [expand_pieces ok, if_neg ((percent_iff ok).2 plain), value_literals plain]
      · exact expand_valid ok valid
  · intro ps qs ok valid others
    refine ⟨valueOf ps, valueOf qs, expand_valid (fun piece member => ok piece (by simp [member])) valid,
      expand_valid (fun piece member => ok piece (by simp [member])) others, ?_⟩
    rw [expand_valid ok (runs_append_valid valid others)]
    simp [valueOf]

def office : SshParam where
  host := text "127.0.0.1"
  port := text "1337"
  user := text "penny"
  destination := text "dest"
  proxies := [text "jump"]
  hostKeyAlias := []
  hostname := text "my.domain"
  sha1Hex _ := []

theorem office_tokens_exact :
    expandTokens (text "%p和%r%%") office (text "%hnpr") = .ok (text "1337和penny%") := by
  have ok : ∀ piece ∈ [Piece.token 112 (text "1337"), .literal (text "和"), .token 114 (text "penny"), .token 37 [37]],
      piece.Ok office (text "%hnpr") := by
    simp only [List.forall_mem_cons]
    exact ⟨⟨by decide +kernel, by decide +kernel⟩, show 37 ∉ text "和" by decide +kernel,
      ⟨by decide +kernel, by decide +kernel⟩, ⟨by decide +kernel, by decide +kernel⟩, by simp⟩
  exact ((token_expansion_exact office (text "%hnpr")).1 _ ok).2 (Or.inr (by decide +kernel))

theorem stray_byte_rewritten :
    expandTokens [0xFF] office (text "%hnpr") = .ok [0xFF] ∧
    expandTokens (text "%%") office (text "%hnpr") = .ok [37] ∧
    expandTokens ([0xFF] ++ text "%%") office (text "%hnpr") = .ok [0xEF, 0xBF, 0xBD, 37] := by
  refine ⟨by decide +kernel, by decide +kernel, by decide +kernel⟩

end TokenExpansion
