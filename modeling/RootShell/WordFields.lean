import RootShell.ByteText
import RootShell.FuelledLoops

/-!
The fields of a text between white space, and the numerals of fixed width: strings.Fields
and strconv.ParseUint with a bit size. A field ends where a unit of white space starts.
-/
namespace WordFields
open ByteLines ByteText FuelledLoops

variable {s w v t u gap : Bytes} {b : UInt8} {fuel d bits n : Nat}

section Fields
variable {units : List Bytes}

def flush (word : Bytes) : List Bytes := if word = [] then [] else [word]

def fieldsLoop (units : List Bytes) : Nat → Bytes → Bytes → List Bytes
  | 0, word, _ => flush word
  | _ + 1, word, [] => flush word
  | fuel + 1, word, b :: s =>
    match units.find? (fun u => u.isPrefixOf (b :: s)) with
    | some u => flush word ++ fieldsLoop units fuel [] ((b :: s).drop u.length)
    | none => fieldsLoop units fuel (word ++ [b]) s

def fields (s : Bytes) : List Bytes := fieldsLoop spaceUnits s.length [] s

def Unbroken (units : List Bytes) (s : Bytes) : Prop := ∀ u ∈ units, ¬ u <:+: s

theorem find_unit (separable : Separable units) (member : v ∈ units) :
    units.find? (fun u => u.isPrefixOf (v ++ s)) = some v := by
  cases found : units.find? (fun u => u.isPrefixOf (v ++ s)) with
  | none =>
    have := List.find?_eq_none.mp found v member
    simp at this
  | some u =>
    have inside := List.mem_of_find?_eq_some found
    have front : u <+: v ++ s := by simpa using List.find?_some found
    rcases List.prefix_or_prefix_of_prefix front (List.prefix_append v s) with h | h
    · rw [separable.front u inside v member h]
    · rw [separable.front v member u inside h]

theorem find_no_unit (absent : ∀ u ∈ units, ¬ u <+: s) : units.find? (fun u => u.isPrefixOf s) = none := by
  refine List.find?_eq_none.mpr fun u member front => absent u member ?_
  simpa using front

theorem unit_border (separable : Separable units) (absent : ∀ u ∈ units, ¬ u <+: t)
    (some : t ≠ []) (member : v ∈ units) : ∀ u ∈ units, ¬ u <+: t ++ (v ++ s) := by
  intro u inside front
  rcases List.prefix_or_prefix_of_prefix front (List.prefix_append t _) with h | ⟨w, rfl⟩
  · exact absent u inside h
  · cases w with
    | nil => exact absent _ inside (by simp)
    | cons b w =>
      have start : b :: w <+: v ++ s := by simpa using front
      cases v with
      | nil => exact separable.nonempty member
      | cons c v =>
        rw [List.cons_append, List.cons_prefix_cons] at start
        refine separable.marked _ inside _ member b ?_ (by simp [start.1])
        cases t with
        | nil => contradiction
        | cons => simp

theorem fields_loop_fuel (nonempty : [] ∉ units) (word s : Bytes) (budget : s.length ≤ fuel) :
    fieldsLoop units fuel word s = fieldsLoop units s.length word s := by
  have shrinking : Shrinking fun fuel s w => fieldsLoop units fuel w s := by
    intro b s f g same
    funext w
    simp only [fieldsLoop]
    cases found : units.find? (fun u => u.isPrefixOf (b :: s)) with
    | none => exact congrFun (same s (Nat.le_refl _)) (w ++ [b])
    | some u =>
      have positive : 0 < u.length := List.length_pos_of_ne_nil fun empty =>
        nonempty (empty ▸ List.mem_of_find?_eq_some found)
      have shorter : ((b :: s).drop u.length).length ≤ s.length := by
        rw [List.length_drop, List.length_cons]
        omega
      exact congrArg (flush w ++ ·) (congrFun (same _ shorter) [])
  refine congrFun (enough_fuel ?_ shrinking budget (Nat.le_refl _)) word
  intro fuel
  cases fuel <;> rfl

theorem fields_loop_unit (separable : Separable units) (member : u ∈ units) (word s : Bytes) :
    fieldsLoop units (u ++ s).length word (u ++ s) = flush word ++ fieldsLoop units s.length [] s := by
  have found := find_unit (s := s) separable member
  cases u with
  | nil => exact absurd member separable.nonempty
  | cons b u =>
    simp only [List.cons_append, List.length_cons, fieldsLoop] at found ⊢
    simp only [found, List.length_cons, List.drop_succ_cons, List.drop_left]
    rw [fields_loop_fuel separable.nonempty [] s (by simp)]

theorem fields_loop_byte (absent : ∀ u ∈ units, ¬ u <+: b :: s) (word : Bytes) :
    fieldsLoop units (b :: s).length word (b :: s) = fieldsLoop units s.length (word ++ [b]) s := by
  simp only [List.length_cons, fieldsLoop, find_no_unit absent]

theorem unbroken_tail (unbroken : Unbroken units (b :: w)) : Unbroken units w :=
  fun u member inside => unbroken u member (inside.trans (List.suffix_cons b w).isInfix)

theorem fields_loop_word (separable : Separable units) (unbroken : Unbroken units w)
    (member : v ∈ units) (word s : Bytes) :
    fieldsLoop units (w ++ (v ++ s)).length word (w ++ (v ++ s)) =
      fieldsLoop units (v ++ s).length (word ++ w) (v ++ s) := by
  induction w generalizing word with
  | nil => simp
  | cons b w ih =>
    have stop := unit_border (s := s) separable (fun u inside front => unbroken u inside front.isInfix)
      (by simp : b :: w ≠ []) member
    rw [List.cons_append, fields_loop_byte (by simpa using stop), ih (unbroken_tail unbroken)]
    simp

theorem fields_loop_last (unbroken : Unbroken units w) (word : Bytes) :
    fieldsLoop units w.length word w = flush (word ++ w) := by
  induction w generalizing word with
  | nil => simp [fieldsLoop]
  | cons b w ih =>
    rw [fields_loop_byte (fun u inside front => unbroken u inside front.isInfix), ih (unbroken_tail unbroken)]
    simp

theorem fields_made (made : Made spaceUnits gap) (s : Bytes) : fields (gap ++ s) = fields s := by
  obtain ⟨parts, member, rfl⟩ := made
  induction parts with
  | nil => rfl
  | cons u parts ih =>
    rw [List.flatten_cons, List.append_assoc, fields, fields_loop_unit space_units_separable (member u (by simp))]
    exact ih fun v inside => member v (by simp [inside])

theorem fields_last (unbroken : Unbroken spaceUnits w) (some : w ≠ []) : fields w = [w] := by
  rw [fields, fields_loop_last unbroken]
  simp [flush, some]

theorem fields_word (unbroken : Unbroken spaceUnits w) (some : w ≠ [])
    (made : Made spaceUnits gap) (apart : gap ≠ []) (s : Bytes) : fields (w ++ (gap ++ s)) = w :: fields s := by
  obtain ⟨parts, member, rfl⟩ := made
  cases parts with
  | nil => exact absurd rfl apart
  | cons u parts =>
    have rest : Made spaceUnits parts.flatten := ⟨parts, fun v inside => member v (by simp [inside]), rfl⟩
    rw [List.flatten_cons, List.append_assoc, fields,
      fields_loop_word space_units_separable unbroken (member u (by simp)),
      fields_loop_unit space_units_separable (member u (by simp))]
    have ended : flush ([] ++ w) = [w] := by simp [flush, some]
    rw [ended, ← fields_made rest s]
    rfl

theorem unbroken_trim (unbroken : Unbroken spaceUnits s) : trimSpace s = s :=
  trim_trimmed space_units_separable
    ⟨fun u member front => unbroken u member front.isInfix, fun u member back => unbroken u member back.isInfix⟩

theorem unbroken_join {c : UInt8} (clean : ∀ u ∈ spaceUnits, c ∉ u) (first : Unbroken spaceUnits s)
    (second : Unbroken spaceUnits t) : Unbroken spaceUnits (s ++ c :: t) := by
  intro u member inside
  rcases List.infix_append_iff.1 inside with left | right | ⟨x, y, rfl, back, front⟩
  · exact first u member left
  · rcases List.infix_cons_iff.1 right with starts | behind
    · cases u with
      | nil => exact space_units_separable.nonempty member
      | cons b u =>
        obtain ⟨rfl, _⟩ := List.cons_prefix_cons.1 starts
        exact clean _ member List.mem_cons_self
    · exact second u member behind
  · cases y with
    | nil =>
      rw [List.append_nil] at member
      exact first x member back.isInfix
    | cons b y =>
      obtain ⟨rfl, _⟩ := List.cons_prefix_cons.1 front
      exact clean _ member (by simp)

theorem unbroken_clean (clean : ∀ u ∈ spaceUnits, ∀ b ∈ u, b ∉ s) : Unbroken spaceUnits s := by
  have filled : ∀ u ∈ spaceUnits, u ≠ [] := by decide
  intro u member inside
  obtain ⟨b, first⟩ := List.exists_mem_of_ne_nil u (filled u member)
  exact clean u member b first (inside.subset first)

end Fields

section Numerals

def decimalByte (b : UInt8) : Bool := 48 ≤ b && b ≤ 57

def Numeral (s : Bytes) : Prop := s ≠ [] ∧ ∀ b ∈ s, decimalByte b = true

instance decidableNumeral (s : Bytes) : Decidable (Numeral s) := inferInstanceAs (Decidable (_ ∧ _))

def decimalValue (s : Bytes) : Nat := s.foldl (fun n b => n * 10 + (b.toNat - 48)) 0

def parseUintSized (base bits : Nat) (s : Bytes) : Option Nat :=
  (parseUint base s).bind fun n => if n < 2 ^ bits then some n else none

theorem decimal_byte_iff : decimalByte b = true ↔ 48 ≤ b ∧ b ≤ 57 := by
  simp [decimalByte]

theorem digit_value_digit (digit : decimalByte b = true) :
    digitValue b = some (b.toNat - 48) ∧ b.toNat - 48 < 10 := by
  obtain ⟨low, high⟩ := decimal_byte_iff.1 digit
  refine ⟨by simp [digitValue, low, high], ?_⟩
  have := UInt8.le_iff_toNat_le.1 high
  simp at this
  omega

theorem digit_value_other (other : decimalByte b = false) (value : digitValue b = some d) : 10 ≤ d := by
  have outside : ¬ (48 ≤ b ∧ b ≤ 57) := fun inside => by simp [decimal_byte_iff.2 inside] at other
  simp only [digitValue, if_neg outside] at value
  split at value
  · rename_i lower
    have := UInt8.le_iff_toNat_le.1 lower.1
    simp at this value
    omega
  · split at value
    · rename_i upper
      have := UInt8.le_iff_toNat_le.1 upper.1
      simp at this value
      omega
    · cases value

theorem parse_digits_ten (acc : Nat) (s : Bytes) :
    parseDigits 10 acc s =
      if ∀ b ∈ s, decimalByte b = true then some (s.foldl (fun n b => n * 10 + (b.toNat - 48)) acc) else none := by
  induction s generalizing acc with
  | nil => simp [parseDigits]
  | cons b s ih =>
    cases digit : decimalByte b with
    | true =>
      obtain ⟨value, small⟩ := digit_value_digit digit
      simp only [parseDigits, value, small, ↓reduceIte, ih, List.foldl_cons, List.forall_mem_cons, digit, true_and]
    | false =>
      have refused : parseDigits 10 acc (b :: s) = none := by
        cases value : digitValue b with
        | none => simp only [parseDigits, value]
        | some d =>
          have large := digit_value_other digit value
          simp only [parseDigits, value, if_neg (Nat.not_lt.2 large)]
      rw [refused, if_neg]
      intro all
      simp [all b (by simp)] at digit

theorem parse_uint_numeral (numeral : Numeral s) : parseUint 10 s = some (decimalValue s) := by
  rw [parseUint, if_neg numeral.1, parse_digits_ten, if_pos numeral.2]
  rfl

theorem parse_uint_sized_iff :
    parseUintSized 10 bits s = some n ↔ Numeral s ∧ decimalValue s = n ∧ n < 2 ^ bits := by
  constructor
  · intro parsed
    obtain ⟨k, value, small⟩ := Option.bind_eq_some_iff.1 parsed
    by_cases numeral : Numeral s
    · rw [parse_uint_numeral numeral, Option.some.injEq] at value
      split at small
      · rename_i fits
        cases small
        exact ⟨numeral, value, fits⟩
      · cases small
    · exfalso
      by_cases empty : s = []
      · simp [parseUint, empty] at value
      · rw [parseUint, if_neg empty, parse_digits_ten, if_neg fun all => numeral ⟨empty, all⟩] at value
        cases value
  · rintro ⟨numeral, rfl, fits⟩
    simp [parseUintSized, parse_uint_numeral numeral, fits]

theorem numeral_itoa (n : Nat) : Numeral (itoa n) :=
  ⟨itoa_not_nil n, fun b member => decimal_byte_iff.2 (decimal_digits (n + 1) n b member)⟩

theorem decimal_value_itoa (n : Nat) : decimalValue (itoa n) = n := by
  have parsed := parse_uint_numeral (numeral_itoa n)
  rw [parseUint, if_neg (itoa_not_nil n), itoa, parse_digits_decimal (n + 1) n (by omega)] at parsed
  exact (Option.some.inj parsed).symm

theorem parse_uint_sized_itoa (fits : n < 2 ^ bits) : parseUintSized 10 bits (itoa n) = some n :=
  parse_uint_sized_iff.2 ⟨numeral_itoa n, decimal_value_itoa n, fits⟩

theorem numeral_clean (numeral : Numeral s) (other : decimalByte b = false) : b ∉ s := by
  intro member
  rw [numeral.2 b member] at other
  cases other

theorem numeral_unbroken (numeral : Numeral s) : Unbroken spaceUnits s := by
  have apart : ∀ u ∈ spaceUnits, ∀ b ∈ u, decimalByte b = false := by decide +kernel
  exact unbroken_clean fun u member b inside => numeral_clean numeral (apart u member b inside)

end Numerals

end WordFields
