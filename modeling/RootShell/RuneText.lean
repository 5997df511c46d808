import RootShell.ByteText
import RootShell.FuelledLoops

/-!
Texts as sequences of runes: decoding cuts a byte string into encodings and stray bytes,
and writing the runes back keeps the encodings and replaces the stray bytes. ASCII bytes
are runes of their own, so a text may be cut at them before it is decoded.
-/
namespace RuneText
open ByteLines ByteText FuelledLoops
open UInt8 (le_iff_toNat_le)

variable {b c d lo hi e : UInt8} {w n fuel r : Nat} {s : Bytes}

def Scalar (r : Nat) : Prop := r < 0xD800 ∨ (0xE000 ≤ r ∧ r < 0x110000)

def sanitize (s : Bytes) : Bytes := (runes s).flatMap encodeRune

def validLoop : Nat → Bytes → Bool
  | 0, _ => true
  | _ + 1, [] => true
  | fuel + 1, b :: rest =>
    if 0x80 ≤ b ∧ (decodeRune b rest).2 = 1 then false
    else validLoop fuel ((b :: rest).drop (decodeRune b rest).2)

def validString (s : Bytes) : Bool := validLoop s.length s

section Decoding

theorem table_entry {A : Type} {c : Prop} [Decidable c] {x y : A} {rest : Option A}
    (found : (if c then some x else rest) = some y) : c ∧ x = y ∨ ¬ c ∧ rest = some y := by
  by_cases holds : c
  · rw [if_pos holds] at found
    exact Or.inl ⟨holds, Option.some.inj found⟩
  · rw [if_neg holds] at found
    exact Or.inr ⟨holds, found⟩

theorem lead_byte_cases (lead : leadByte b = some (w, lo, hi)) :
    0x80 ≤ lo.toNat ∧ hi.toNat ≤ 0xBF ∧
    ((w = 2 ∧ 0xC2 ≤ b.toNat ∧ b.toNat ≤ 0xDF) ∨
     (w = 3 ∧ 0xE0 ≤ b.toNat ∧ b.toNat ≤ 0xEF ∧ (b.toNat = 0xE0 → 0xA0 ≤ lo.toNat) ∧
      (b.toNat = 0xED → hi.toNat ≤ 0x9F)) ∨
     (w = 4 ∧ 0xF0 ≤ b.toNat ∧ b.toNat ≤ 0xF4 ∧ (b.toNat = 0xF0 → 0x90 ≤ lo.toNat) ∧
      (b.toNat = 0xF4 → hi.toNat ≤ 0x8F))) := by
  unfold leadByte at lead
  rcases table_entry lead with ⟨two, same⟩ | ⟨_, lead⟩
  · cases same
    exact ⟨by decide, by decide, Or.inl ⟨rfl, le_iff_toNat_le.1 two.1, le_iff_toNat_le.1 two.2⟩⟩
  rcases table_entry lead with ⟨rfl, same⟩ | ⟨_, lead⟩
  · cases same
    decide
  rcases table_entry lead with ⟨rfl, same⟩ | ⟨ed, lead⟩
  · cases same
    decide
  rcases table_entry lead with ⟨three, same⟩ | ⟨_, lead⟩
  · cases same
    have low : 0xE1 ≤ b.toNat := le_iff_toNat_le.1 three.1
    have other : b.toNat ≠ 0xED := fun same => ed (UInt8.toNat_inj.1 same)
    exact ⟨by decide, by decide, Or.inr (Or.inl ⟨rfl, by omega, le_iff_toNat_le.1 three.2, by omega, by omega⟩)⟩
  rcases table_entry lead with ⟨rfl, same⟩ | ⟨_, lead⟩
  · cases same
    decide
  rcases table_entry lead with ⟨four, same⟩ | ⟨_, lead⟩
  · cases same
    have low : 0xF1 ≤ b.toNat := le_iff_toNat_le.1 four.1
    have high : b.toNat ≤ 0xF3 := le_iff_toNat_le.1 four.2
    exact ⟨by decide, by decide, Or.inr (Or.inr ⟨rfl, by omega, by omega, by omega, by omega⟩)⟩
  rcases table_entry lead with ⟨rfl, same⟩ | ⟨_, lead⟩
  · cases same
    decide
  · cases lead

theorem byte_of_nat (eq : n = b.toNat) : UInt8.ofNat n = b := by
  rw [eq, UInt8.ofNat_toNat]

theorem encode_two (low : 0xC2 ≤ b.toNat) (high : b.toNat ≤ 0xDF) (clow : 0x80 ≤ c.toNat) (chigh : c.toNat ≤ 0xBF) :
    Scalar (b.toNat % 32 * 64 + c.toNat % 64) ∧ encodeRune (b.toNat % 32 * 64 + c.toNat % 64) = [b, c] := by
  refine ⟨Or.inl (by omega), ?_⟩
  rw [encodeRune, if_neg (by omega), if_pos (by omega), byte_of_nat (b := b) (by omega),
    byte_of_nat (b := c) (by omega)]

theorem encode_three (low : 0xE0 ≤ b.toNat) (high : b.toNat ≤ 0xEF) (clow : 0x80 ≤ c.toNat)
    (chigh : c.toNat ≤ 0xBF) (dlow : 0x80 ≤ d.toNat) (dhigh : d.toNat ≤ 0xBF) (long : b.toNat = 0xE0 → 0xA0 ≤ c.toNat)
    (surrogate : b.toNat = 0xED → c.toNat ≤ 0x9F) :
    Scalar (b.toNat % 16 * 4096 + c.toNat % 64 * 64 + d.toNat % 64) ∧
      encodeRune (b.toNat % 16 * 4096 + c.toNat % 64 * 64 + d.toNat % 64) = [b, c, d] := by
  have outside : ¬ (0xD800 ≤ b.toNat % 16 * 4096 + c.toNat % 64 * 64 + d.toNat % 64 ∧
      b.toNat % 16 * 4096 + c.toNat % 64 * 64 + d.toNat % 64 < 0xE000) := by omega
  refine ⟨by unfold Scalar; omega, ?_⟩
  rw [encodeRune, if_neg (by omega), if_neg (by omega), if_pos ⟨by omega, outside⟩, byte_of_nat (b := b) (by omega),
    byte_of_nat (b := c) (by omega), byte_of_nat (b := d) (by omega)]

theorem encode_four (low : 0xF0 ≤ b.toNat) (high : b.toNat ≤ 0xF4) (clow : 0x80 ≤ c.toNat)
    (chigh : c.toNat ≤ 0xBF) (dlow : 0x80 ≤ d.toNat) (dhigh : d.toNat ≤ 0xBF) (elow : 0x80 ≤ e.toNat)
    (ehigh : e.toNat ≤ 0xBF) (long : b.toNat = 0xF0 → 0x90 ≤ c.toNat) (large : b.toNat = 0xF4 → c.toNat ≤ 0x8F) :
    Scalar (b.toNat % 8 * 262144 + c.toNat % 64 * 4096 + d.toNat % 64 * 64 + e.toNat % 64) ∧
      encodeRune (b.toNat % 8 * 262144 + c.toNat % 64 * 4096 + d.toNat % 64 * 64 + e.toNat % 64) = [b, c, d, e] := by
  refine ⟨Or.inr (by omega), ?_⟩
  rw [encodeRune, if_neg (by omega), if_neg (by omega), if_neg (by omega), if_pos (by omega),
    byte_of_nat (b := b) (by omega), byte_of_nat (b := c) (by omega), byte_of_nat (b := d) (by omega),
    byte_of_nat (b := e) (by omega)]

theorem continuation_bounds (cont : continuation b = true) : 0x80 ≤ b.toNat ∧ b.toNat ≤ 0xBF := by
  simp only [continuation, Bool.and_eq_true, decide_eq_true_eq] at cont
  exact ⟨le_iff_toNat_le.1 cont.1, le_iff_toNat_le.1 cont.2⟩

theorem decode_rune_cases (b : UInt8) (rest : Bytes) :
    (0x80 ≤ b ∧ decodeRune b rest = (runeError, 1)) ∨
    (∃ r w, decodeRune b rest = (r, w) ∧ Scalar r ∧ 1 ≤ w ∧ w ≤ (b :: rest).length ∧
      encodeRune r = (b :: rest).take w ∧ (0x80 ≤ b → 2 ≤ w)) := by
  by_cases small : b < 0x80
  · have less : b.toNat < 0x80 := UInt8.lt_iff_toNat_lt.1 small
    refine Or.inr ⟨b.toNat, 1, by simp [decodeRune, small], Or.inl (by omega), Nat.le_refl _, by simp, ?_, ?_⟩
    · rw [encodeRune, if_pos less, UInt8.ofNat_toNat]
      rfl
    · intro large
      exact absurd small (UInt8.not_lt.2 large)
  · have large : 0x80 ≤ b := UInt8.not_lt.1 small
    unfold decodeRune
    rw [if_neg small]
    split
    · rename_i lo hi c tail lead
      obtain ⟨low, high, shape⟩ := lead_byte_cases lead
      split
      · rename_i inside
        have clow := le_iff_toNat_le.1 inside.1
        have chigh := le_iff_toNat_le.1 inside.2
        obtain ⟨scalar, encoded⟩ := encode_two (b := b) (c := c) (by omega) (by omega) (by omega) (by omega)
        exact Or.inr ⟨_, 2, rfl, scalar, by omega, by simp, encoded, fun _ => Nat.le_refl _⟩
      · exact Or.inl ⟨large, rfl⟩
    · rename_i lo hi c d tail lead
      obtain ⟨low, high, shape⟩ := lead_byte_cases lead
      split
      · rename_i inside
        have clow := le_iff_toNat_le.1 inside.1
        have chigh := le_iff_toNat_le.1 inside.2.1
        obtain ⟨dlow, dhigh⟩ := continuation_bounds inside.2.2
        obtain ⟨scalar, encoded⟩ := encode_three (b := b) (c := c) (d := d) (by omega) (by omega) (by omega) (by omega)
          dlow dhigh (by omega) (by omega)
        exact Or.inr ⟨_, 3, rfl, scalar, by omega, by simp, encoded, fun _ => by omega⟩
      · exact Or.inl ⟨large, rfl⟩
    · rename_i lo hi c d e tail lead
      obtain ⟨low, high, shape⟩ := lead_byte_cases lead
      split
      · rename_i inside
        have clow := le_iff_toNat_le.1 inside.1
        have chigh := le_iff_toNat_le.1 inside.2.1
        obtain ⟨dlow, dhigh⟩ := continuation_bounds inside.2.2.1
        obtain ⟨elow, ehigh⟩ := continuation_bounds inside.2.2.2
        obtain ⟨scalar, encoded⟩ := encode_four (b := b) (c := c) (d := d) (e := e) (by omega) (by omega) (by omega)
          (by omega) dlow dhigh elow ehigh (by omega) (by omega)
        exact Or.inr ⟨_, 4, rfl, scalar, by omega, by simp, encoded, fun _ => by omega⟩
      · exact Or.inl ⟨large, rfl⟩
    · exact Or.inl ⟨large, rfl⟩

theorem decode_width (b : UInt8) (rest : Bytes) :
    1 ≤ (decodeRune b rest).2 ∧ (decodeRune b rest).2 ≤ (b :: rest).length := by
  rcases decode_rune_cases b rest with ⟨_, decoded⟩ | ⟨r, w, decoded, _, low, high, _⟩
  · simp [decoded]
  · rw [decoded]
    exact ⟨low, high⟩

theorem continuation_of (low : 0x80 ≤ b.toNat) (high : b.toNat ≤ 0xBF) : continuation b = true := by
  simp only [continuation, Bool.and_eq_true, decide_eq_true_eq]
  exact ⟨le_iff_toNat_le.2 low, le_iff_toNat_le.2 high⟩

theorem ascii_fresh (ascii : c < 0x80) : continuation c = false := by
  rw [continuation, decide_eq_false (UInt8.not_le.2 ascii), Bool.false_and]

theorem decode_rune_fresh (fresh : continuation c = false) (b : UInt8) (rest t : Bytes) :
    decodeRune b (rest ++ c :: t) = decodeRune b rest := by
  unfold decodeRune
  split
  · rfl
  · cases lead : leadByte b with
    | none => rfl
    | some entry =>
      obtain ⟨w, lo, hi⟩ := entry
      obtain ⟨low, high, shape⟩ := lead_byte_cases lead
      have first : lo ≤ c → ¬ c ≤ hi := by
        intro above below
        have cont := continuation_of (Nat.le_trans low (le_iff_toNat_le.1 above))
          (Nat.le_trans (le_iff_toNat_le.1 below) high)
        rw [fresh] at cont
        cases cont
      -- the byte stands where a continuation byte is needed, or beyond the encoding
      rcases shape with ⟨rfl, _⟩ | ⟨rfl, _⟩ | ⟨rfl, _⟩
      · rcases rest with _ | ⟨x, rest⟩ <;> simp +contextual [first]
      · rcases rest with _ | ⟨x, _ | ⟨y, rest⟩⟩ <;> rcases t with _ | ⟨d, t⟩ <;> simp +contextual [first, fresh]
      · rcases rest with _ | ⟨x, _ | ⟨y, _ | ⟨z, rest⟩⟩⟩ <;> rcases t with _ | ⟨d, _ | ⟨e, t⟩⟩ <;>
          simp +contextual [first, fresh]

end Decoding

section Runes

theorem decode_drop_length (b : UInt8) (s : Bytes) : ((b :: s).drop (decodeRune b s).2).length ≤ s.length := by
  obtain ⟨positive, _⟩ := decode_width b s
  rw [List.length_drop, List.length_cons]
  omega

theorem runes_loop_fuel (budget : s.length ≤ fuel) : runesLoop fuel s = runes s := by
  refine enough_fuel ?_ ?_ budget (Nat.le_refl _)
  · intro fuel
    cases fuel <;> rfl
  · intro b s f g same
    simp only [runesLoop, same _ (decode_drop_length b s)]

theorem runes_nil : runes [] = [] := rfl

theorem runes_cons (b : UInt8) (s : Bytes) :
    runes (b :: s) = (decodeRune b s).1 :: runes ((b :: s).drop (decodeRune b s).2) := by
  obtain ⟨positive, _⟩ := decode_width b s
  rw [runes, List.length_cons, runesLoop]
  simp only
  rw [runes_loop_fuel (by simp; omega)]

theorem rune_induction {P : Bytes → Prop} (nil : P [])
    (step : ∀ b s, P ((b :: s).drop (decodeRune b s).2) → P (b :: s)) (s : Bytes) : P s := by
  induction len : s.length using Nat.strongRecOn generalizing s with
  | ind n ih =>
    cases s with
    | nil => exact nil
    | cons b s =>
      obtain ⟨positive, _⟩ := decode_width b s
      exact step b s (ih _ (by simp at len ⊢; omega) _ rfl)

theorem runes_append_fresh (fresh : continuation c = false) (s t : Bytes) :
    runes (s ++ c :: t) = runes s ++ runes (c :: t) := by
  induction s using rune_induction with
  | nil => rfl
  | step b s ih =>
    obtain ⟨_, inside⟩ := decode_width b s
    rw [List.cons_append, runes_cons, decode_rune_fresh fresh, runes_cons, ← List.cons_append,
      List.drop_append_of_le_length inside, ih, List.cons_append]

theorem runes_append_ascii (ascii : c < 0x80) (s t : Bytes) :
    runes (s ++ c :: t) = runes s ++ c.toNat :: runes t := by
  have decoded : decodeRune c t = (c.toNat, 1) := by simp [decodeRune, ascii]
  rw [runes_append_fresh (ascii_fresh ascii), runes_cons, decoded]
  rfl

theorem runes_scalar (s : Bytes) : ∀ r ∈ runes s, Scalar r := by
  induction s using rune_induction with
  | nil => simp [runes_nil]
  | step b s ih =>
    rw [runes_cons]
    refine List.forall_mem_cons.2 ⟨?_, ih⟩
    rcases decode_rune_cases b s with ⟨_, decoded⟩ | ⟨r, w, decoded, scalar, _⟩
    · rw [decoded]
      exact Or.inr (by decide)
    · rw [decoded]
      exact scalar

end Runes

section Validity

theorem valid_loop_fuel (budget : s.length ≤ fuel) : validLoop fuel s = validString s := by
  refine enough_fuel ?_ ?_ budget (Nat.le_refl _)
  · intro fuel
    cases fuel <;> rfl
  · intro b s f g same
    simp only [validLoop, same _ (decode_drop_length b s)]

theorem valid_cons (b : UInt8) (s : Bytes) :
    validString (b :: s) = true ↔
      ¬ (0x80 ≤ b ∧ (decodeRune b s).2 = 1) ∧ validString ((b :: s).drop (decodeRune b s).2) = true := by
  obtain ⟨positive, _⟩ := decode_width b s
  rw [validString, List.length_cons, validLoop, valid_loop_fuel (by simp; omega)]
  split <;> simp [*]

theorem ascii_decoded (ascii : c < 0x80) (same : (decodeRune b s).1 = c.toNat) : b = c := by
  have small : c.toNat < 0x80 := UInt8.lt_iff_toNat_lt.1 ascii
  rcases decode_rune_cases b s with ⟨_, decoded⟩ | ⟨r, w, decoded, _, positive, _, encoded, _⟩
  · rw [decoded] at same
    exact absurd (show 0xFFFD = c.toNat from same) (by omega)
  · rw [decoded] at same
    rw [show r = c.toNat from same, encodeRune, if_pos small, UInt8.ofNat_toNat] at encoded
    obtain ⟨w, rfl⟩ : ∃ k, w = k + 1 := ⟨w - 1, by omega⟩
    rw [List.take_succ_cons] at encoded
    exact (List.cons.inj encoded).1.symm

theorem ascii_rune (ascii : c < 0x80) (absent : c ∉ s) : c.toNat ∉ runes s := by
  induction s using rune_induction with
  | nil => simp [runes_nil]
  | step b s ih =>
    rw [runes_cons, List.mem_cons, not_or]
    refine ⟨fun same => ?_, ih fun member => absent (List.mem_of_mem_drop member)⟩
    exact absent (by rw [ascii_decoded ascii same.symm]; simp)

theorem sanitize_cons (b : UInt8) (s : Bytes) :
    sanitize (b :: s) = encodeRune (decodeRune b s).1 ++ sanitize ((b :: s).drop (decodeRune b s).2) := by
  rw [sanitize, runes_cons, List.flatMap_cons]
  rfl

theorem encode_decoded (b : UInt8) (s : Bytes) :
    ((0x80 ≤ b ∧ (decodeRune b s).2 = 1) ∧ encodeRune (decodeRune b s).1 = [0xEF, 0xBF, 0xBD]) ∨
    (¬ (0x80 ≤ b ∧ (decodeRune b s).2 = 1) ∧
      encodeRune (decodeRune b s).1 = (b :: s).take (decodeRune b s).2) := by
  rcases decode_rune_cases b s with ⟨large, decoded⟩ | ⟨r, w, decoded, _, _, _, encoded, wide⟩
  · rw [decoded]
    exact Or.inl ⟨⟨large, rfl⟩, by decide⟩
  · rw [decoded]
    refine Or.inr ⟨?_, encoded⟩
    rintro ⟨large, one⟩
    have := wide large
    simp at one
    omega

theorem sanitize_length (s : Bytes) : s.length ≤ (sanitize s).length := by
  induction s using rune_induction with
  | nil => exact Nat.le_refl _
  | step b s ih =>
    obtain ⟨positive, inside⟩ := decode_width b s
    rw [sanitize_cons, List.length_append]
    rw [List.length_drop] at ih
    rcases encode_decoded b s with ⟨⟨_, one⟩, encoded⟩ | ⟨_, encoded⟩
    · rw [encoded]
      simp only [List.length_cons, List.length_nil] at ih ⊢
      omega
    · rw [encoded, List.length_take]
      omega

theorem sanitize_eq_iff (s : Bytes) : sanitize s = s ↔ validString s = true := by
  induction s using rune_induction with
  | nil => exact ⟨fun _ => rfl, fun _ => rfl⟩
  | step b s ih =>
    rw [sanitize_cons, valid_cons]
    rcases encode_decoded b s with ⟨stray, encoded⟩ | ⟨whole, encoded⟩
    · -- a stray byte makes the result longer
      have longer := sanitize_length ((b :: s).drop (decodeRune b s).2)
      rw [stray.2] at longer
      constructor
      · intro same
        have lengths := congrArg List.length same
        rw [encoded, stray.2] at lengths
        simp at lengths longer
        omega
      · intro valid
        exact absurd stray valid.1
    · rw [encoded, ← ih]
      constructor
      · intro same
        refine ⟨whole, List.append_cancel_left (?_ : (b :: s).take (decodeRune b s).2 ++ _ = _)⟩
        rw [same, List.take_append_drop]
      · intro valid
        rw [valid.2, List.take_append_drop]

end Validity

section Encoding

theorem ne_nat (other : b ≠ c) : b.toNat ≠ c.toNat := fun same => other (UInt8.toNat_inj.1 same)

theorem not_ascii (large : 0x80 ≤ b.toNat) : ¬ b < 0x80 := UInt8.not_lt.2 (le_iff_toNat_le.2 large)

theorem above_range (above : hi.toNat < b.toNat) : ¬ (lo ≤ b ∧ b ≤ hi) := by
  intro between
  exact Nat.not_le.2 above (le_iff_toNat_le.1 between.2)

theorem decode_two (low : 0xC2 ≤ b.toNat) (high : b.toNat ≤ 0xDF) (clow : 0x80 ≤ c.toNat) (chigh : c.toNat ≤ 0xBF)
    (t : Bytes) : decodeRune b (c :: t) = (b.toNat % 32 * 64 + c.toNat % 64, 2) := by
  have large : ¬ b < 0x80 := not_ascii (by omega)
  have lead : leadByte b = some (2, 0x80, 0xBF) := by
    rw [leadByte, if_pos ⟨le_iff_toNat_le.2 low, le_iff_toNat_le.2 high⟩]
  unfold decodeRune
  rw [if_neg large, lead]
  exact if_pos ⟨le_iff_toNat_le.2 clow, le_iff_toNat_le.2 chigh⟩

theorem decode_three (low : 0xE0 ≤ b.toNat) (high : b.toNat ≤ 0xEF) (clow : 0x80 ≤ c.toNat)
    (chigh : c.toNat ≤ 0xBF) (dlow : 0x80 ≤ d.toNat) (dhigh : d.toNat ≤ 0xBF) (long : b.toNat = 0xE0 → 0xA0 ≤ c.toNat)
    (surrogate : b.toNat = 0xED → c.toNat ≤ 0x9F) (t : Bytes) :
    decodeRune b (c :: d :: t) = (b.toNat % 16 * 4096 + c.toNat % 64 * 64 + d.toNat % 64, 3) := by
  have large : ¬ b < 0x80 := not_ascii (by omega)
  have lead : ∃ lo hi, leadByte b = some (3, lo, hi) ∧ lo ≤ c ∧ c ≤ hi := by
    have two : ¬ (0xC2 ≤ b ∧ b ≤ 0xDF) := above_range (Nat.lt_of_lt_of_le (by decide) low)
    unfold leadByte
    rw [if_neg two]
    by_cases e0 : b = 0xE0
    · rw [if_pos e0]
      exact ⟨_, _, rfl, le_iff_toNat_le.2 (long (by rw [e0]; rfl)), le_iff_toNat_le.2 chigh⟩
    by_cases ed : b = 0xED
    · rw [if_neg e0, if_pos ed]
      exact ⟨_, _, rfl, le_iff_toNat_le.2 clow, le_iff_toNat_le.2 (surrogate (by rw [ed]; rfl))⟩
    · have behind : 0xE0 < b.toNat := Nat.lt_of_le_of_ne low (ne_nat e0).symm
      rw [if_neg e0, if_neg ed, if_pos ⟨le_iff_toNat_le.2 behind, le_iff_toNat_le.2 high⟩]
      exact ⟨_, _, rfl, le_iff_toNat_le.2 clow, le_iff_toNat_le.2 chigh⟩
  obtain ⟨lo, hi, lead, first, second⟩ := lead
  unfold decodeRune
  rw [if_neg large, lead]
  exact if_pos ⟨first, second, continuation_of dlow dhigh⟩

theorem decode_four (low : 0xF0 ≤ b.toNat) (high : b.toNat ≤ 0xF4) (clow : 0x80 ≤ c.toNat) (chigh : c.toNat ≤ 0xBF)
    (dlow : 0x80 ≤ d.toNat) (dhigh : d.toNat ≤ 0xBF) (elow : 0x80 ≤ e.toNat) (ehigh : e.toNat ≤ 0xBF)
    (long : b.toNat = 0xF0 → 0x90 ≤ c.toNat) (top : b.toNat = 0xF4 → c.toNat ≤ 0x8F) (t : Bytes) :
    decodeRune b (c :: d :: e :: t) =
      (b.toNat % 8 * 262144 + c.toNat % 64 * 4096 + d.toNat % 64 * 64 + e.toNat % 64, 4) := by
  have large : ¬ b < 0x80 := not_ascii (by omega)
  have lead : ∃ lo hi, leadByte b = some (4, lo, hi) ∧ lo ≤ c ∧ c ≤ hi := by
    have two : ¬ (0xC2 ≤ b ∧ b ≤ 0xDF) := above_range (Nat.lt_of_lt_of_le (by decide) low)
    have three : ¬ (0xE1 ≤ b ∧ b ≤ 0xEF) := above_range (Nat.lt_of_lt_of_le (by decide) low)
    have e0 : b ≠ 0xE0 := by
      rintro rfl
      exact absurd low (by decide)
    have ed : b ≠ 0xED := by
      rintro rfl
      exact absurd low (by decide)
    unfold leadByte
    rw [if_neg two, if_neg e0, if_neg ed, if_neg three]
    by_cases f0 : b = 0xF0
    · rw [if_pos f0]
      exact ⟨_, _, rfl, le_iff_toNat_le.2 (long (by rw [f0]; rfl)), le_iff_toNat_le.2 chigh⟩
    by_cases f4 : b = 0xF4
    · rw [if_neg f0, if_neg (by rw [f4]; decide), if_pos f4]
      exact ⟨_, _, rfl, le_iff_toNat_le.2 clow, le_iff_toNat_le.2 (top (by rw [f4]; rfl))⟩
    · have behind : 0xF0 < b.toNat := Nat.lt_of_le_of_ne low (ne_nat f0).symm
      have before : b.toNat < 0xF4 := Nat.lt_of_le_of_ne high (ne_nat f4)
      rw [if_neg f0, if_pos ⟨le_iff_toNat_le.2 behind, le_iff_toNat_le.2 (Nat.le_of_lt_succ before)⟩]
      exact ⟨_, _, rfl, le_iff_toNat_le.2 clow, le_iff_toNat_le.2 chigh⟩
  obtain ⟨lo, hi, lead, first, second⟩ := lead
  unfold decodeRune
  rw [if_neg large, lead]
  exact if_pos ⟨first, second, continuation_of dlow dhigh, continuation_of elow ehigh⟩

theorem to_nat_of (small : n < 256) : (UInt8.ofNat n).toNat = n := UInt8.toNat_ofNat_of_lt' small

theorem decode_encoded (scalar : Scalar r) :
    ∃ b e, encodeRune r = b :: e ∧ ∀ t, decodeRune b (e ++ t) = (r, (encodeRune r).length) := by
  unfold Scalar at scalar
  unfold encodeRune
  split_ifs with one two three four
  · have first := to_nat_of (show r < 256 by omega)
    have ascii : UInt8.ofNat r < 0x80 := UInt8.lt_iff_toNat_lt.2 (by rw [first]; exact one)
    refine ⟨_, _, rfl, fun t => ?_⟩
    unfold decodeRune
    rw [if_pos ascii, first]
    rfl
  · have first := to_nat_of (show 0xC0 + r / 64 < 256 by omega)
    have second := to_nat_of (show 0x80 + r % 64 < 256 by omega)
    refine ⟨_, _, rfl, fun t => (decode_two (by omega) (by omega) (by omega) (by omega) t).trans ?_⟩
    exact Prod.ext (by simp only [first, second]; omega) rfl
  · have first := to_nat_of (show 0xE0 + r / 4096 < 256 by omega)
    have second := to_nat_of (show 0x80 + r / 64 % 64 < 256 by omega)
    have third := to_nat_of (show 0x80 + r % 64 < 256 by omega)
    refine ⟨_, _, rfl, fun t => (decode_three (by omega) (by omega) (by omega) (by omega) (by omega) (by omega)
      (by omega) (by omega) t).trans ?_⟩
    exact Prod.ext (by simp only [first, second, third]; omega) rfl
  · have first := to_nat_of (show 0xF0 + r / 262144 < 256 by omega)
    have second := to_nat_of (show 0x80 + r / 4096 % 64 < 256 by omega)
    have third := to_nat_of (show 0x80 + r / 64 % 64 < 256 by omega)
    have fourth := to_nat_of (show 0x80 + r % 64 < 256 by omega)
    refine ⟨_, _, rfl, fun t => (decode_four (by omega) (by omega) (by omega) (by omega) (by omega) (by omega)
      (by omega) (by omega) (by omega) (by omega) t).trans ?_⟩
    exact Prod.ext (by simp only [first, second, third, fourth]; omega) rfl
  · omega

theorem runes_encode (scalar : Scalar r) (t : Bytes) : runes (encodeRune r ++ t) = r :: runes t := by
  obtain ⟨b, e, encoded, decoded⟩ := decode_encoded scalar
  rw [encoded, List.cons_append, runes_cons, decoded, ← List.cons_append, ← encoded, List.drop_left]

theorem encode_shape {e : Bytes} (scalar : Scalar r) (shape : encodeRune r = b :: e) :
    continuation b = false ∧ (∀ c ∈ e, continuation c = true) ∧ (e ≠ [] → 0x80 ≤ r) ∧ (0x10000 ≤ r → e.length = 3) := by
  have follows : ∀ n, continuation (UInt8.ofNat (0x80 + n % 64)) = true := by
    intro n
    have value := to_nat_of (show 0x80 + n % 64 < 256 by omega)
    exact continuation_of (by omega) (by omega)
  have starts : ∀ n, n < 256 → n < 0x80 ∨ 0xC0 ≤ n → continuation (UInt8.ofNat n) = false := by
    intro n small outside
    have value := to_nat_of small
    cases cont : continuation (UInt8.ofNat n) with
    | false => rfl
    | true => have := continuation_bounds cont; omega
  unfold Scalar at scalar
  unfold encodeRune at shape
  split_ifs at shape with one two three four
  · cases shape
    exact ⟨starts _ (by omega) (Or.inl one), by simp, by simp, fun _ => by omega⟩
  · cases shape
    exact ⟨starts _ (by omega) (Or.inr (by omega)), List.forall_mem_singleton.2 (follows _), fun _ => by omega,
      fun _ => by omega⟩
  · cases shape
    exact ⟨starts _ (by omega) (Or.inr (by omega)),
      List.forall_mem_cons.2 ⟨follows _, List.forall_mem_singleton.2 (follows _)⟩, fun _ => by omega, fun _ => by omega⟩
  · cases shape
    exact ⟨starts _ (by omega) (Or.inr (by omega)), List.forall_mem_cons.2 ⟨follows _, List.forall_mem_cons.2
      ⟨follows _, List.forall_mem_singleton.2 (follows _)⟩⟩, fun _ => by omega, fun _ => rfl⟩
  · omega

theorem decode_continuation (cont : continuation b = true) (s : Bytes) : decodeRune b s = (runeError, 1) := by
  obtain ⟨low, high⟩ := continuation_bounds cont
  have none : leadByte b = none := by
    cases lead : leadByte b with
    | none => rfl
    | some entry =>
      obtain ⟨w, lo, hi⟩ := entry
      obtain ⟨_, _, shape⟩ := lead_byte_cases lead
      omega
  unfold decodeRune
  rw [if_neg (not_ascii low), none]

def encode (rs : List Nat) : Bytes := rs.flatMap encodeRune

theorem runes_encode_all {rs : List Nat} (scalar : ∀ r ∈ rs, Scalar r) : runes (encode rs) = rs := by
  induction rs with
  | nil => rfl
  | cons r rs ih =>
    rw [encode, List.flatMap_cons, runes_encode (scalar r (by simp))]
    exact congrArg (r :: ·) (ih fun s member => scalar s (by simp [member]))

theorem valid_iff_encoded (s : Bytes) : validString s = true ↔ ∃ rs, (∀ r ∈ rs, Scalar r) ∧ s = encode rs := by
  rw [← sanitize_eq_iff]
  constructor
  · intro same
    exact ⟨runes s, runes_scalar s, same.symm⟩
  · rintro ⟨rs, scalar, rfl⟩
    rw [sanitize, runes_encode_all scalar]
    rfl

theorem valid_append {t : Bytes} (first : validString s = true) (second : validString t = true) :
    validString (s ++ t) = true := by
  obtain ⟨rs, scalars, rfl⟩ := (valid_iff_encoded s).1 first
  obtain ⟨qs, others, rfl⟩ := (valid_iff_encoded t).1 second
  refine (valid_iff_encoded _).2 ⟨rs ++ qs, ?_, by simp [encode]⟩
  intro r member
  rcases List.mem_append.1 member with left | right
  · exact scalars r left
  · exact others r right

end Encoding

section Cuts

def SplitsRune (before piece : Bytes) : Prop :=
  ∃ r p q, Scalar r ∧ encodeRune r = p ++ q ∧ p ≠ [] ∧ q ≠ [] ∧ p <:+ before ∧ q <+: piece

theorem decode_prefix (b : UInt8) (s t : Bytes) :
    decodeRune b (s ++ t) = decodeRune b s ∨
    (0x80 ≤ b ∧ decodeRune b s = (runeError, 1) ∧
      ∃ r q v, Scalar r ∧ t = q ++ v ∧ q ≠ [] ∧ encodeRune r = (b :: s) ++ q) := by
  rcases decode_rune_cases b s with ⟨large, stray⟩ | ⟨r, w, decoded, scalar, _, inside, encoded, _⟩
  · rcases decode_rune_cases b (s ++ t) with ⟨_, still⟩ | ⟨r, w, decoded, scalar, _, inside, encoded, wide⟩
    · exact Or.inl (still.trans stray.symm)
    · by_cases within : w ≤ (b :: s).length
      · -- an encoding inside the first text would be found without the second
        exfalso
        rw [← List.cons_append, List.take_append_of_le_length within] at encoded
        obtain ⟨c, e, shape, alone⟩ := decode_encoded scalar
        have whole := List.take_append_drop w (b :: s)
        rw [← encoded, shape, List.cons_append] at whole
        obtain ⟨rfl, rest⟩ := List.cons.inj whole
        have length := congrArg Prod.snd ((congrArg (decodeRune c) rest.symm).trans (alone _))
        rw [stray, encoded, List.length_take_of_le within] at length
        have := wide large
        simp at length
        omega
      · rw [← List.cons_append, List.take_append, List.take_of_length_le (by omega)] at encoded
        refine Or.inr ⟨large, stray, r, _, _, scalar, (List.take_append_drop (w - (b :: s).length) t).symm, ?_, encoded⟩
        intro empty
        have lengths := congrArg List.length empty
        rw [List.length_take, List.length_nil] at lengths
        simp only [List.length_cons, List.length_append] at inside lengths within
        omega
  · left
    obtain ⟨c, e, shape, alone⟩ := decode_encoded scalar
    have whole := List.take_append_drop w (b :: s)
    rw [← encoded, shape, List.cons_append] at whole
    obtain ⟨rfl, rest⟩ := List.cons.inj whole
    rw [← rest, List.append_assoc, alone, alone]

theorem fresh_not_split (fresh : continuation b = false) (before s : Bytes) : ¬ SplitsRune before (b :: s) := by
  rintro ⟨r, p, q, scalar, encoded, hp, hq, _, front⟩
  obtain ⟨c, p, rfl⟩ := List.exists_cons_of_ne_nil hp
  obtain ⟨d, q, rfl⟩ := List.exists_cons_of_ne_nil hq
  obtain ⟨_, others, _⟩ := encode_shape scalar (encoded.trans List.cons_append)
  have cont := others d (by simp)
  rw [(List.cons_prefix_cons.1 front).1, fresh] at cont
  cases cont

end Cuts

end RuneText
