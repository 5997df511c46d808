import RootShell.TokenExpansion

/-!
The texts an expect rule sends: newSendText, decodeText and sendInput of tssh/expect.go. A
backslash starts an escape and backslash bar separates the texts; the percent tokens of
each text are expanded after it has been decoded.
-/
namespace SendTexts
open ByteLines ByteText FuelledLoops RuneText TokenExpansion

variable {c b : UInt8} {s : Bytes} {r : Nat}

section Code

def rangeLoop : Nat → Bytes → Nat → List (Nat × Nat)
  | 0, _, _ => []
  | _ + 1, [], _ => []
  | fuel + 1, b :: rest, i =>
    (i, (decodeRune b rest).1) ::
      rangeLoop fuel ((b :: rest).drop (decodeRune b rest).2) (i + (decodeRune b rest).2)

def rangeFrom (i : Nat) (s : Bytes) : List (Nat × Nat) := rangeLoop s.length s i

structure ExpectSendText where
  showText : Bytes
  sendText : Bytes
  deriving DecidableEq

def sendTokens : Bytes := text "%hprnLlj"

/-- A text whose tokens cannot be expanded is taken as it is. -/
def expandedOr (param : SshParam) (s : Bytes) : Bytes :=
  match expandTokens s param sendTokens with
  | .ok expanded => expanded
  | .error _ => s

def newSendText (enableDebugLogging : Bool) (param : SshParam) (showText sendText : Bytes) : ExpectSendText where
  showText := if enableDebugLogging then expandedOr param showText else []
  sendText := expandedOr param sendText

structure Decoding where
  texts : List ExpectSendText
  buf : Bytes
  escaped : Bool
  idx : Nat

variable (new : Bytes → Bytes → ExpectSendText) (input : Bytes)

def decodeStep (s : Decoding) : Nat × Nat → Decoding
  | (i, c) =>
    if s.escaped = false then
      if c = 92 then { s with escaped := true } else { s with buf := s.buf ++ encodeRune c }
    else if c = 92 then { s with escaped := false, buf := s.buf ++ [92] }
    else if c = 114 then { s with escaped := false, buf := s.buf ++ [13] }
    else if c = 110 then { s with escaped := false, buf := s.buf ++ [10] }
    else if c = 116 then { s with escaped := false, buf := s.buf ++ [9] }
    else if c = 124 then
      { texts := s.texts ++ [new ((input.drop s.idx).take (i - 1 - s.idx)) s.buf], buf := [], escaped := false,
        idx := i + 1 }
    else { s with escaped := false, buf := s.buf ++ 92 :: encodeRune c }

def finish (s : Decoding) : List ExpectSendText :=
  s.texts ++ [new (input.drop s.idx) (if s.escaped then s.buf ++ [92] else s.buf)]

def decodeWith : List ExpectSendText :=
  finish new input ((rangeFrom 0 input).foldl (decodeStep new input) ⟨[], [], false, 0⟩)

def decodeText (enableDebugLogging : Bool) (param : SshParam) (input : Bytes) : List ExpectSendText :=
  decodeWith (newSendText enableDebugLogging param) input

structure ExpectSender where
  passwd : Bool
  input : Bytes

/-- What is written, write by write, as long as no write fails. A password is written byte
    by byte and ended with a carriage return. -/
def sendInput (param : SshParam) : Option ExpectSender → List Bytes
  | none => []
  | some sender =>
    if sender.passwd then sender.input.map (fun b => [b]) ++ [[13]]
    else ((decodeText false param sender.input).map ExpectSendText.sendText).filter (· ≠ [])

end Code

section Encoded

def escapeByte (b : UInt8) : Bytes :=
  if b = 92 then [92, 92]
  else if b = 13 then [92, 114]
  else if b = 10 then [92, 110]
  else if b = 9 then [92, 116]
  else [b]

def escapeText (s : Bytes) : Bytes := s.flatMap escapeByte

def doublePercent (s : Bytes) : Bytes := s.flatMap fun b => if b = 37 then [37, 37] else [b]

def encodeSegment (s : Bytes) : Bytes := doublePercent (escapeText s)

def joinSegments (segments : List Bytes) : Bytes := List.intercalate [92, 124] (segments.map encodeSegment)

end Encoded

section Ranges

theorem range_loop_fuel {fuel : Nat} (budget : s.length ≤ fuel) (i : Nat) : rangeLoop fuel s i = rangeFrom i s := by
  refine congrFun (enough_fuel ?_ ?_ budget (Nat.le_refl s.length)) i
  · intro fuel
    cases fuel <;> rfl
  · intro b s f g same
    funext i
    simp only [rangeLoop, same _ (decode_drop_length b s)]

theorem range_encoded (scalar : Scalar r) (i : Nat) (t : Bytes) :
    rangeFrom i (encodeRune r ++ t) = (i, r) :: rangeFrom (i + (encodeRune r).length) t := by
  obtain ⟨b, e, shape, decoded⟩ := decode_encoded scalar
  have budget := decode_drop_length b (e ++ t)
  rw [shape, List.cons_append, rangeFrom, List.length_cons, rangeLoop, range_loop_fuel budget, decoded,
    ← List.cons_append, ← shape, List.drop_left]

end Ranges

section Percents

theorem ascii_not_encoded (scalar : Scalar r) (large : 0x80 ≤ r) (ascii : c < 0x80) : c ∉ encodeRune r := by
  intro member
  obtain ⟨s, t, split⟩ := List.append_of_mem member
  have decoded := runes_encode scalar []
  rw [List.append_nil, split, runes_append_ascii ascii, runes_nil] at decoded
  have small : c.toNat < 0x80 := UInt8.lt_iff_toNat_lt.1 ascii
  cases front : runes s with
  | nil =>
    rw [front] at decoded
    obtain ⟨same, _⟩ := List.cons.inj decoded
    omega
  | cons x xs =>
    rw [front] at decoded
    simp at decoded

theorem encode_byte (ascii : c < 0x80) : encodeRune c.toNat = [c] := by
  have small : c.toNat < 0x80 := UInt8.lt_iff_toNat_lt.1 ascii
  rw [encodeRune, if_pos small, UInt8.ofNat_toNat]

theorem flat_map_encoded {f : UInt8 → Bytes} (plain : ∀ b, ¬ b < 0x80 → f b = [b]) (scalar : Scalar r)
    (large : 0x80 ≤ r) : (encodeRune r).flatMap f = encodeRune r := by
  have single : ∀ b ∈ encodeRune r, f b = [b] := fun b member =>
    plain b fun ascii => ascii_not_encoded scalar large ascii member
  rw [List.flatMap_congr single]
  exact List.flatMap_singleton' _

theorem valid_induction {P : Bytes → Prop} (nil : P []) (byte : ∀ b s, b < 0x80 → P s → P (b :: s))
    (rune : ∀ r s, Scalar r → 0x80 ≤ r → P s → P (encodeRune r ++ s)) (valid : validString s = true) : P s := by
  obtain ⟨rs, scalar, rfl⟩ := (valid_iff_encoded s).1 valid
  clear valid
  induction rs with
  | nil => exact nil
  | cons r rs ih =>
    rw [List.forall_mem_cons] at scalar
    have later : P (encode rs) := ih scalar.2
    rw [encode, List.flatMap_cons]
    by_cases small : r < 0x80
    · have value := to_nat_of (show r < 256 by omega)
      have ascii : UInt8.ofNat r < 0x80 := UInt8.lt_iff_toNat_lt.2 (by rw [value]; exact small)
      rw [encodeRune, if_pos small]
      exact byte _ _ ascii later
    · exact rune r _ scalar.1 (by omega) later

theorem double_plain (b : UInt8) (large : ¬ b < 0x80) : (if b = 37 then [37, 37] else [b]) = [b] :=
  if_neg fun same => large (by rw [same]; decide)

theorem escape_plain (b : UInt8) (large : ¬ b < 0x80) : escapeByte b = [b] := by
  have other : ∀ c : UInt8, c < 0x80 → b ≠ c := by
    rintro c ascii rfl
    exact large ascii
  rw [escapeByte, if_neg (other 92 (by decide)), if_neg (other 13 (by decide)), if_neg (other 10 (by decide)),
    if_neg (other 9 (by decide))]

variable {param : SshParam}

theorem double_cons (b : UInt8) (s : Bytes) :
    doublePercent (b :: s) = (if b = 37 then [37, 37] else [b]) ++ doublePercent s := List.flatMap_cons

theorem double_append (s t : Bytes) : doublePercent (s ++ t) = doublePercent s ++ doublePercent t := List.flatMap_append

theorem expand_doubled (valid : validString s = true) (buf : Bytes) :
    expandLoop param sendTokens false buf (runes (doublePercent s)) = .ok (buf ++ s) := by
  refine valid_induction (P := fun s => ∀ buf, expandLoop param sendTokens false buf (runes (doublePercent s)) =
    .ok (buf ++ s)) ?_ ?_ ?_ valid buf
  · intro buf
    rw [List.append_nil]
    rfl
  · intro b s ascii ih buf
    rw [double_cons]
    by_cases percent : b = 37
    · have supported : containsRune sendTokens 37 = true := by decide +kernel
      have found : tokenValue param sendTokens (37 : UInt8).toNat = .ok [37] := rfl
      rw [if_pos percent, percent, List.cons_append, List.singleton_append, ← List.nil_append (37 :: 37 :: _),
        expand_token (by simp) supported found, ih]
      simp [sanitize, runes_nil]
    · have other : b.toNat ≠ 37 := ne_nat percent
      rw [if_neg percent, List.singleton_append, ← List.nil_append (b :: _), runes_append_ascii ascii, runes_nil,
        List.nil_append, expandLoop, if_neg other, encode_byte ascii, ih, List.append_assoc, List.singleton_append]
  · intro r s scalar large ih buf
    have same : doublePercent (encodeRune r) = encodeRune r := flat_map_encoded double_plain scalar large
    rw [double_append, same, runes_encode scalar, expandLoop, if_neg (by omega), ih, List.append_assoc]

theorem expand_double_percent (valid : validString s = true) :
    expandTokens (doublePercent s) param sendTokens = .ok s := by
  unfold expandTokens
  split
  · exact expand_doubled valid []
  · rename_i plain
    have single : ∀ b ∈ s, (if b = 37 then [37, 37] else [b]) = [b] := by
      intro b member
      refine if_neg fun percent => plain ?_
      exact List.mem_flatMap.2 ⟨b, member, by simp [percent]⟩
    rw [doublePercent, List.flatMap_congr single]
    exact congrArg _ (List.flatMap_singleton' s)

theorem valid_rune (scalar : Scalar r) : validString (encodeRune r) = true :=
  (valid_iff_encoded _).2 ⟨[r], by simpa using scalar, by simp [encode]⟩

theorem escape_valid (valid : validString s = true) : validString (escapeText s) = true := by
  refine valid_induction (P := fun s => validString (escapeText s) = true) rfl ?_ ?_ valid
  · intro b s ascii ih
    have single : validString [b] = true := by
      rw [← encode_byte ascii]
      exact valid_rune (Or.inl (Nat.lt_of_lt_of_le (UInt8.lt_iff_toNat_lt.1 ascii) (by decide)))
    have unit : validString (escapeByte b) = true := by
      unfold escapeByte
      split_ifs
      · decide +kernel
      · decide +kernel
      · decide +kernel
      · decide +kernel
      · exact single
    exact valid_append unit ih
  · intro r s scalar large ih
    have same : escapeText (encodeRune r) = encodeRune r := flat_map_encoded escape_plain scalar large
    rw [escapeText, List.flatMap_append, ← escapeText, same]
    exact valid_append (valid_rune scalar) ih

end Percents

section Decoding
variable {new : Bytes → Bytes → ExpectSendText} {input : Bytes}

def decodeFrom (new : Bytes → Bytes → ExpectSendText) (input : Bytes) (s : Decoding) (i : Nat) (t : Bytes) : Decoding :=
  (rangeFrom i t).foldl (decodeStep new input) s

theorem decode_from_rune (scalar : Scalar r) (s : Decoding) (i : Nat) (t : Bytes) :
    decodeFrom new input s i (encodeRune r ++ t) =
      decodeFrom new input (decodeStep new input s (i, r)) (i + (encodeRune r).length) t := by
  rw [decodeFrom, range_encoded scalar, List.foldl_cons]
  rfl

theorem decode_from_byte (ascii : b < 0x80) (s : Decoding) (i : Nat) (t : Bytes) :
    decodeFrom new input s i (b :: t) = decodeFrom new input (decodeStep new input s (i, b.toNat)) (i + 1) t := by
  have small : b.toNat < 0x80 := UInt8.lt_iff_toNat_lt.1 ascii
  have step : decodeFrom new input s i (encodeRune b.toNat ++ t) = _ :=
    decode_from_rune (Or.inl (Nat.lt_of_lt_of_le small (by decide))) s i t
  rwa [encode_byte ascii, List.singleton_append, List.length_singleton] at step

theorem decode_from_escape (ascii : c < 0x80) (texts : List ExpectSendText) (buf : Bytes) (idx i : Nat) (t : Bytes) :
    decodeFrom new input ⟨texts, buf, false, idx⟩ i (92 :: c :: t) =
      decodeFrom new input (decodeStep new input ⟨texts, buf, true, idx⟩ (i + 1, c.toNat)) (i + 2) t := by
  rw [decode_from_byte (by decide), decode_from_byte ascii]
  rfl

theorem decode_from_plain (ascii : b < 0x80) (other : b ≠ 92) (texts : List ExpectSendText) (buf : Bytes)
    (idx i : Nat) (t : Bytes) :
    decodeFrom new input ⟨texts, buf, false, idx⟩ i (b :: t) =
      decodeFrom new input ⟨texts, buf ++ [b], false, idx⟩ (i + 1) t := by
  have no : b.toNat ≠ 92 := ne_nat other
  rw [decode_from_byte ascii, decodeStep, if_pos rfl, if_neg no, encode_byte ascii]

theorem decode_from_unit (ascii : b < 0x80) (texts : List ExpectSendText) (buf : Bytes) (idx i : Nat) (t : Bytes) :
    decodeFrom new input ⟨texts, buf, false, idx⟩ i (doublePercent (escapeByte b) ++ t) =
      decodeFrom new input ⟨texts, buf ++ doublePercent [b], false, idx⟩
        (i + (doublePercent (escapeByte b)).length) t := by
  unfold escapeByte
  split_ifs with backslash cr lf tab
  · rw [backslash]
    exact decode_from_escape (by decide) texts buf idx i t
  · rw [cr]
    exact decode_from_escape (by decide) texts buf idx i t
  · rw [lf]
    exact decode_from_escape (by decide) texts buf idx i t
  · rw [tab]
    exact decode_from_escape (by decide) texts buf idx i t
  · by_cases percent : b = 37
    · have twice : doublePercent [b] = [37, 37] := by rw [percent]; rfl
      rw [twice, List.cons_append, List.singleton_append, decode_from_plain (by decide) (by decide),
        decode_from_plain (by decide) (by decide), List.append_assoc]
      rfl
    · have once : doublePercent [b] = [b] := by simp [doublePercent, percent]
      rw [once, List.singleton_append, decode_from_plain ascii backslash, List.length_singleton]

theorem decode_from_segment {seg : Bytes} (valid : validString seg = true) (texts : List ExpectSendText) (buf : Bytes)
    (idx i : Nat) (t : Bytes) :
    decodeFrom new input ⟨texts, buf, false, idx⟩ i (encodeSegment seg ++ t) =
      decodeFrom new input ⟨texts, buf ++ doublePercent seg, false, idx⟩ (i + (encodeSegment seg).length) t := by
  refine valid_induction (P := fun seg => ∀ buf i, decodeFrom new input ⟨texts, buf, false, idx⟩ i
    (encodeSegment seg ++ t) = decodeFrom new input ⟨texts, buf ++ doublePercent seg, false, idx⟩
      (i + (encodeSegment seg).length) t) ?_ ?_ ?_ valid buf i
  · intro buf i
    simp [encodeSegment, escapeText, doublePercent]
  · intro b seg ascii ih buf i
    have unit : encodeSegment (b :: seg) = doublePercent (escapeByte b) ++ encodeSegment seg := by
      rw [encodeSegment, escapeText, List.flatMap_cons, double_append]
      rfl
    have doubled : doublePercent (b :: seg) = doublePercent [b] ++ doublePercent seg := double_append [b] seg
    rw [unit, List.append_assoc, decode_from_unit ascii, ih, doubled, List.append_assoc, List.length_append,
      Nat.add_assoc]
  · intro r seg scalar large ih buf i
    have unit : encodeSegment (encodeRune r ++ seg) = encodeRune r ++ encodeSegment seg := by
      rw [encodeSegment, escapeText, List.flatMap_append, double_append, flat_map_encoded escape_plain scalar large]
      exact congrArg (· ++ _) (flat_map_encoded double_plain scalar large)
    have doubled : doublePercent (encodeRune r ++ seg) = encodeRune r ++ doublePercent seg := by
      rw [double_append]
      exact congrArg (· ++ _) (flat_map_encoded double_plain scalar large)
    rw [unit, List.append_assoc, decode_from_rune scalar, decodeStep, if_pos rfl, if_neg (by omega), ih, doubled,
      List.append_assoc, List.length_append, Nat.add_assoc]

theorem decode_from_separator (texts : List ExpectSendText) (buf : Bytes) (idx i : Nat) (t : Bytes) :
    decodeFrom new input ⟨texts, buf, false, idx⟩ i (92 :: 124 :: t) =
      decodeFrom new input ⟨texts ++ [new ((input.drop idx).take (i - idx)) buf], [], false, i + 2⟩ (i + 2) t :=
  decode_from_escape (by decide) texts buf idx i t

theorem decode_from_segments (seg : Bytes) (segs : List Bytes) (valid : ∀ s ∈ seg :: segs, validString s = true)
    (texts : List ExpectSendText) (before : Bytes) (whole : input = before ++ joinSegments (seg :: segs)) :
    finish new input
        (decodeFrom new input ⟨texts, [], false, before.length⟩ before.length (joinSegments (seg :: segs))) =
      texts ++ (seg :: segs).map fun s => new (encodeSegment s) (doublePercent s) := by
  induction segs generalizing seg texts before with
  | nil =>
    have single : joinSegments [seg] = encodeSegment seg := by simp [joinSegments, List.intercalate]
    rw [single] at whole ⊢
    rw [← List.append_nil (encodeSegment seg), decode_from_segment (valid seg (by simp)), decodeFrom,
      show rangeFrom _ [] = [] from rfl, List.foldl_nil, finish, whole, List.drop_left]
    rfl
  | cons next segs ih =>
    rw [List.forall_mem_cons] at valid
    have cut : joinSegments (seg :: next :: segs) = encodeSegment seg ++ 92 :: 124 :: joinSegments (next :: segs) := by
      simp [joinSegments, List.intercalate]
    have longer : input = (before ++ encodeSegment seg ++ [92, 124]) ++ joinSegments (next :: segs) := by
      rw [whole, cut]
      simp
    have piece : (input.drop before.length).take (before.length + (encodeSegment seg).length - before.length) =
        encodeSegment seg := by
      rw [whole, cut, List.drop_left, Nat.add_sub_cancel_left, List.take_left]
    have later := ih next valid.2 (texts ++ [new (encodeSegment seg) (doublePercent seg)]) _ longer
    have length :
        (before ++ encodeSegment seg ++ [92, 124]).length = before.length + (encodeSegment seg).length + 2 := by
      simp [Nat.add_assoc]
    rw [length] at later
    rw [cut, decode_from_segment valid.1, decode_from_separator, piece, List.nil_append, later, List.append_assoc]
    rfl

end Decoding

/-- Segments that are encoded, joined and decoded come back in order, each as the text to
    send; the text to show is the expansion of its encoded piece. -/
theorem send_texts_decoded (enableDebugLogging : Bool) (param : SshParam) (segments : List Bytes) (some : segments ≠ [])
    (valid : ∀ seg ∈ segments, validString seg = true) :
    (∀ seg ∈ segments, expandTokens (encodeSegment seg) param sendTokens = .ok (escapeText seg)) ∧
    decodeText enableDebugLogging param (joinSegments segments) =
      segments.map fun seg => ⟨if enableDebugLogging then escapeText seg else [], seg⟩ := by
  have shown : ∀ seg ∈ segments, expandTokens (encodeSegment seg) param sendTokens = .ok (escapeText seg) :=
    fun seg member => expand_double_percent (escape_valid (valid seg member))
  refine ⟨shown, ?_⟩
  obtain ⟨seg, segs, rfl⟩ := List.exists_cons_of_ne_nil some
  have decoded : decodeText enableDebugLogging param (joinSegments (seg :: segs)) = _ :=
    decode_from_segments seg segs valid [] [] rfl
  rw [decoded, List.nil_append]
  refine List.map_congr_left fun s member => ?_
  rw [newSendText, expandedOr, expandedOr, shown s member, expand_double_percent (valid s member)]

theorem two_texts_decoded :
    decodeText true office (joinSegments [text "50%\r", [], text "和\\|"]) =
      [⟨text "50%\\r", text "50%\r"⟩, ⟨[], []⟩, ⟨text "和\\\\|", text "和\\|"⟩] := by
  rw [(send_texts_decoded true office [text "50%\r", [], text "和\\|"] (by simp) (by decide +kernel)).2]
  decide +kernel

end SendTexts
