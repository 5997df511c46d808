import RootShell.PiecewiseFeeds
import RootShell.RuneText

/-!
Texts made printable: strconv.QuoteToASCII. Every rune is quoted on its own and every byte
that belongs to no encoding by its value, so a text may be quoted in pieces as long as no
piece ends inside an encoding.
-/
namespace QuotedText
open ByteLines ByteText FuelledLoops PiecewiseFeeds RuneText

variable {s q before piece p : Bytes}

def hexDigits : Nat → Nat → Bytes
  | 0, _ => []
  | n + 1, r => hexDigits n (r / 16) ++ [hexDigit (r % 16)]

def quotedByte (b : UInt8) : Bytes := text "\\x" ++ hexDigits 2 b.toNat

def controlLetter (r : Nat) : Option UInt8 :=
  if r = 7 then some 97
  else if r = 8 then some 98
  else if r = 12 then some 102
  else if r = 10 then some 110
  else if r = 13 then some 114
  else if r = 9 then some 116
  else if r = 11 then some 118
  else none

/-- appendEscapedRune for double quotes and ASCII only. -/
def quotedRune (r : Nat) : Bytes :=
  if r = 34 ∨ r = 92 then [92, UInt8.ofNat r]
  else if 0x20 ≤ r ∧ r < 0x7F then [UInt8.ofNat r]
  else
    match controlLetter r with
    | some letter => [92, letter]
    | none =>
      if r < 0x20 ∨ r = 0x7F then text "\\x" ++ hexDigits 2 r
      else if 0x110000 ≤ r ∨ (0xD800 ≤ r ∧ r < 0xE000) then text "\\u" ++ hexDigits 4 runeError
      else if r < 0x10000 then text "\\u" ++ hexDigits 4 r
      else text "\\U" ++ hexDigits 8 r

def quotedUnit (b : UInt8) (rest : Bytes) : Bytes :=
  if decodeRune b rest = (runeError, 1) then quotedByte b else quotedRune (decodeRune b rest).1

def quoteLoop : Nat → Bytes → Bytes
  | 0, _ => []
  | _ + 1, [] => []
  | fuel + 1, b :: rest => quotedUnit b rest ++ quoteLoop fuel ((b :: rest).drop (decodeRune b rest).2)

def quoted (s : Bytes) : Bytes := quoteLoop s.length s

def quoteToASCII (s : Bytes) : Bytes := 34 :: (quoted s ++ [34])

section Quoting

theorem quote_loop_fuel {fuel : Nat} (budget : s.length ≤ fuel) : quoteLoop fuel s = quoted s := by
  refine enough_fuel ?_ ?_ budget (Nat.le_refl _)
  · intro fuel
    cases fuel <;> rfl
  · intro b s f g same
    simp only [quoteLoop, same _ (decode_drop_length b s)]

theorem quoted_cons (b : UInt8) (s : Bytes) :
    quoted (b :: s) = quotedUnit b s ++ quoted ((b :: s).drop (decodeRune b s).2) := by
  rw [quoted, List.length_cons, quoteLoop, quote_loop_fuel (decode_drop_length b s)]

theorem quoted_stray {b : UInt8} (stray : decodeRune b s = (runeError, 1)) :
    quoted (b :: s) = quotedByte b ++ quoted s := by
  rw [quoted_cons, quotedUnit, if_pos stray, stray]
  rfl

theorem quoted_continuations (cont : ∀ b ∈ q, continuation b = true) (v : Bytes) :
    quoted (q ++ v) = q.flatMap quotedByte ++ quoted v := by
  induction q with
  | nil => rfl
  | cons b q ih =>
    rw [List.forall_mem_cons] at cont
    rw [List.cons_append, quoted_stray (decode_continuation cont.1 _), ih cont.2, List.flatMap_cons, List.append_assoc]

theorem quoted_append (smooth : ¬ SplitsRune before piece) :
    quoted (before ++ piece) = quoted before ++ quoted piece := by
  induction before using rune_induction with
  | nil => rfl
  | step b s ih =>
    obtain ⟨_, inside⟩ := decode_width b s
    have same : decodeRune b (s ++ piece) = decodeRune b s := by
      rcases decode_prefix b s piece with same | ⟨_, _, r, q, v, scalar, rfl, some, encoded⟩
      · exact same
      · exact absurd ⟨r, b :: s, q, scalar, encoded, by simp, some, List.suffix_refl _, List.prefix_append _ _⟩ smooth
    have later : ¬ SplitsRune ((b :: s).drop (decodeRune b s).2) piece := by
      rintro ⟨r, p, q, scalar, encoded, hp, hq, back, front⟩
      exact smooth ⟨r, p, q, scalar, encoded, hp, hq, back.trans (List.drop_suffix _ _), front⟩
    rw [List.cons_append, quoted_cons, quoted_cons, quotedUnit, quotedUnit, same, ← List.cons_append,
      List.drop_append_of_le_length inside, ih later, List.append_assoc]

end Quoting

section Splitting

theorem hex_digits_length (n r : Nat) : (hexDigits n r).length = n := by
  induction n generalizing r with
  | zero => rfl
  | succ n ih => rw [hexDigits, List.length_append, ih, List.length_singleton]

theorem quoted_byte_length (b : UInt8) : (quotedByte b).length = 4 := by
  rw [quotedByte, List.length_append, hex_digits_length]
  decide +kernel

theorem quoted_bytes_length (p : Bytes) : (p.flatMap quotedByte).length = 4 * p.length := by
  induction p with
  | nil => rfl
  | cons b p ih =>
    rw [List.flatMap_cons, List.length_append, ih, quoted_byte_length, List.length_cons]
    omega

theorem quoted_rune_length {r : Nat} (large : 0x80 ≤ r) :
    (quotedRune r).length ≤ 10 ∧ (r < 0x10000 → (quotedRune r).length ≤ 6) := by
  have control : controlLetter r = none := by
    unfold controlLetter
    rw [if_neg (by omega), if_neg (by omega), if_neg (by omega), if_neg (by omega), if_neg (by omega),
      if_neg (by omega), if_neg (by omega)]
  have four : ∀ n, (text "\\u" ++ hexDigits 4 n).length = 6 := by
    intro n
    rw [List.length_append, hex_digits_length]
    decide +kernel
  have eight : (text "\\U" ++ hexDigits 8 r).length = 10 := by
    rw [List.length_append, hex_digits_length]
    decide +kernel
  unfold quotedRune
  rw [if_neg (by omega), if_neg (by omega), control]
  simp only [if_neg (show ¬ (r < 0x20 ∨ r = 0x7F) by omega)]
  split_ifs
  · exact ⟨by rw [four]; omega, fun _ => by rw [four]⟩
  · exact ⟨by rw [four]; omega, fun _ => by rw [four]⟩
  · exact ⟨by rw [eight], fun _ => by omega⟩

theorem quoted_encoded {r : Nat} (scalar : Scalar r) (large : 0x80 ≤ r) (v : Bytes) :
    quoted (encodeRune r ++ v) = quotedRune r ++ quoted v := by
  obtain ⟨b, e, shape, decoded⟩ := decode_encoded scalar
  have wide : (encodeRune r).length ≠ 1 := by
    unfold encodeRune
    split_ifs <;> simp
    omega
  have proper : ¬ (r, (encodeRune r).length) = (runeError, 1) := by
    intro same
    exact wide (Prod.ext_iff.1 same).2
  rw [shape, List.cons_append, quoted_cons, quotedUnit, decoded, if_neg proper, ← List.cons_append, ← shape,
    List.drop_left]

theorem quoted_partial {r : Nat} (scalar : Scalar r) (encoded : encodeRune r = p ++ q) (hq : q ≠ []) :
    quoted p = p.flatMap quotedByte := by
  cases p with
  | nil => rfl
  | cons b s =>
    obtain ⟨c, e, shape, decoded⟩ := decode_encoded scalar
    rw [encoded, List.cons_append] at shape
    obtain ⟨rfl, rfl⟩ := List.cons.inj shape
    obtain ⟨_, conts, _⟩ := encode_shape scalar (encoded.trans List.cons_append)
    have stray : decodeRune b s = (runeError, 1) := by
      rcases decode_prefix b s q with same | ⟨_, stray, _⟩
      · -- a complete encoding in the front part would end the whole one early
        exfalso
        have whole := decoded []
        rw [List.append_nil, same, encoded] at whole
        have width := (decode_width b s).2
        have positive := List.length_pos_of_ne_nil hq
        rw [whole, List.length_append] at width
        omega
      · exact stray
    have rest := quoted_continuations (fun c member => conts c (List.mem_append_left _ member)) []
    rw [List.append_nil, show quoted [] = [] from rfl, List.append_nil] at rest
    rw [quoted_stray stray, rest, List.flatMap_cons]

theorem quoted_split (torn : SplitsRune before piece) :
    (quoted (before ++ piece)).length < (quoted before).length + (quoted piece).length := by
  obtain ⟨r, p, q, scalar, encoded, hp, hq, ⟨u, rfl⟩, ⟨v, rfl⟩⟩ := torn
  obtain ⟨b, s, rfl⟩ := List.exists_cons_of_ne_nil hp
  obtain ⟨fresh, conts, large, wide⟩ := encode_shape scalar (encoded.trans List.cons_append)
  have several : s ++ q ≠ [] := by simp [hq]
  -- an encoding starts with a byte that belongs to nothing before it
  have outer : ∀ t, quoted (u ++ b :: t) = quoted u ++ quoted (b :: t) := fun t =>
    quoted_append (fresh_not_split fresh u t)
  have whole : u ++ b :: s ++ (q ++ v) = u ++ b :: (s ++ q ++ v) := by simp
  have inner : b :: (s ++ q ++ v) = encodeRune r ++ v := by rw [encoded]; simp
  have back := quoted_continuations (fun c member => conts c (List.mem_append_right _ member)) v
  have total := congrArg List.length encoded
  have short := quoted_rune_length (large several)
  have positive := List.length_pos_of_ne_nil hq
  rw [whole, outer, inner, quoted_encoded scalar (large several), outer, quoted_partial scalar encoded hq, back]
  simp only [List.length_append, quoted_bytes_length, List.length_cons] at wide ⊢
  rcases Nat.lt_or_ge r 0x10000 with small | big
  · have := short.2 small
    omega
  · have := wide big
    omega

theorem quoting_follows :
    Follows (fun _ piece => ((), quoted piece)) (fun s => ((), quoted s)) SplitsRune where
  state _ _ := rfl
  smooth _ _ smooth := (quoted_append smooth).symm
  longer _ _ torn := quoted_split torn

theorem quoted_pieces_iff (pieces : List Bytes) :
    pieces.flatMap quoted = quoted pieces.flatten ↔
      ∀ front piece back, pieces = front ++ piece :: back → ¬ SplitsRune front.flatten piece := by
  have agree := feed_all_eq_iff quoting_follows rfl pieces
  rw [Prod.ext_iff, feed_all_stateless] at agree
  simpa only [true_and] using agree

end Splitting

end QuotedText
