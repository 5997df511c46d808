import RootShell.FallibleState
import RootShell.WordFields

/-!
The time strings of the configuration: convertSshTime and formatSshTime of tssh/comm.go.
The scan works in 32-bit words and guards each product and each sum; the strings it accepts
are described by their items and by exact integer sums.
-/
namespace SshTimes
open ByteLines ByteText WordFields FallibleState

inductive TimeError
  | emptyString
  | invalidChar (c : UInt8) (position : Nat)
  | valueOverflow (position : Nat)
  | invalidUnit (c : UInt8)
  | timeValueOverflow
  | totalOverflow
  deriving DecidableEq, Repr

/-- The text of the error; `%c` prints the byte as a rune. -/
def TimeError.message : TimeError → Bytes
  | .emptyString => text "empty time string"
  | .invalidChar c position =>
    text "invalid char '" ++ encodeRune c.toNat ++ text "' at position " ++ itoa position
  | .valueOverflow position => text "value overflow at position " ++ itoa position
  | .invalidUnit c => text "invalid time unit '" ++ encodeRune c.toNat ++ text "'"
  | .timeValueOverflow => text "time value overflow"
  | .totalOverflow => text "total seconds overflow"

def maxUint32 : UInt32 := 0xFFFFFFFF

def multiplierOf (c : UInt8) : Option UInt32 :=
  if c = 115 ∨ c = 83 then some 1
  else if c = 109 ∨ c = 77 then some 60
  else if c = 104 ∨ c = 72 then some 3600
  else if c = 100 ∨ c = 68 then some 86400
  else if c = 119 ∨ c = 87 then some 604800
  else none

def takeMultiplier : Bytes → Except TimeError (UInt32 × Bytes)
  | [] => .ok (1, [])
  | c :: rest =>
    match multiplierOf c with
    | some multiplier => .ok (multiplier, rest)
    | none => .error (.invalidUnit c)

def addScaled (total val multiplier : UInt32) : Except TimeError UInt32 :=
  if val ≠ 0 ∧ maxUint32 / val < multiplier then .error .timeValueOverflow
  else if maxUint32 - val * multiplier < total then .error .totalOverflow
  else .ok (total + val * multiplier)

/-- The loop over the string, at position `start` with `total` counted so far. -/
def convertLoop : Nat → Nat → UInt32 → Bytes → Except TimeError UInt32
  | 0, _, total, _ => .ok total
  | _ + 1, _, total, [] => .ok total
  | fuel + 1, start, total, b :: s =>
    let digits := (b :: s).takeWhile decimalByte
    if digits = [] then .error (.invalidChar b start)
    else
      match parseUintSized 10 32 digits with
      | none => .error (.valueOverflow start)
      | some val =>
        match takeMultiplier ((b :: s).dropWhile decimalByte) with
        | .error e => .error e
        | .ok (multiplier, rest) =>
          match addScaled total (UInt32.ofNat val) multiplier with
          | .error e => .error e
          | .ok sum => convertLoop fuel (start + ((b :: s).length - rest.length)) sum rest

def convertSshTime (str : Bytes) : Except TimeError UInt32 :=
  if str = [] then .error .emptyString else convertLoop str.length 0 0 str

def timeUnits : List (UInt8 × UInt32) := [(119, 604800), (100, 86400), (104, 3600), (109, 60), (115, 1)]

def formatLoop : List (UInt8 × UInt32) → UInt32 → Bytes
  | [], _ => []
  | (suffix, value) :: units, seconds =>
    if value ≤ seconds then itoa (seconds / value).toNat ++ suffix :: formatLoop units (seconds % value)
    else formatLoop units seconds

def formatSshTime (seconds : UInt32) : Bytes :=
  if seconds = 0 then text "0s" else formatLoop timeUnits seconds

section Items

structure TimeItem where
  digits : Bytes
  unit : Option UInt8
  deriving DecidableEq, Repr

def TimeItem.text (item : TimeItem) : Bytes := item.digits ++ item.unit.toList

def unitTable : List (UInt8 × Nat) :=
  [(115, 1), (109, 60), (104, 60 * 60), (100, 24 * 60 * 60), (119, 7 * 24 * 60 * 60)]

def unitSeconds : Option UInt8 → Option Nat
  | none => some 1
  | some c => (unitTable.find? fun entry => c == entry.1 || c == entry.1 - 32).map (·.2)

def TimeItem.value (item : TimeItem) : Nat := decimalValue item.digits * (unitSeconds item.unit).getD 0

def itemsValue : List TimeItem → Nat
  | [] => 0
  | item :: items => item.value + itemsValue items

structure TimeItem.Ok (item : TimeItem) : Prop where
  digits : Numeral item.digits
  unit : (unitSeconds item.unit).isSome
  fits : decimalValue item.digits < 2 ^ 32
  scaled : item.value < 2 ^ 32

structure Reads (items : List TimeItem) (s : Bytes) : Prop where
  whole : s = (items.map TimeItem.text).flatten
  each : ∀ item ∈ items, item.Ok
  closed : ∀ item ∈ items.dropLast, item.unit.isSome

end Items

theorem multiplier_seconds (c : UInt8) : (multiplierOf c).map UInt32.toNat = unitSeconds (some c) := by
  unfold multiplierOf
  split_ifs with s m h d w
  · rcases s with rfl | rfl <;> rfl
  · rcases m with rfl | rfl <;> rfl
  · rcases h with rfl | rfl <;> rfl
  · rcases d with rfl | rfl <;> rfl
  · rcases w with rfl | rfl <;> rfl
  · simp only [not_or] at s m h d w
    simp [unitSeconds, unitTable, s, m, h, d, w]

theorem unit_not_decimal {c : UInt8} (letter : (unitSeconds (some c)).isSome) : decimalByte c = false := by
  have letters : ∀ entry ∈ unitTable, decimalByte entry.1 = false ∧ decimalByte (entry.1 - 32) = false := by
    decide
  rw [unitSeconds, Option.isSome_map, List.find?_isSome] at letter
  obtain ⟨entry, member, same⟩ := letter
  rcases Bool.or_eq_true_iff.1 same with h | h
  · rw [beq_iff_eq.1 h]
    exact (letters entry member).1
  · rw [beq_iff_eq.1 h]
    exact (letters entry member).2

theorem unit_seconds_small {unit : Option UInt8} {k : Nat} (seconds : unitSeconds unit = some k) : k < 2 ^ 32 := by
  have small : ∀ entry ∈ unitTable, entry.2 < 2 ^ 32 := by decide
  cases unit with
  | none =>
    cases seconds
    decide
  | some c =>
    obtain ⟨entry, found, rfl⟩ := Option.map_eq_some_iff.1 seconds
    exact small entry (List.mem_of_find?_eq_some found)

variable {rest s : Bytes} {multiplier total : UInt32} {items : List TimeItem} {item : TimeItem} {fuel start : Nat}

theorem take_multiplier_ok {t : Bytes} :
    takeMultiplier t = .ok (multiplier, rest) ↔
      ∃ unit : Option UInt8, t = unit.toList ++ rest ∧ unitSeconds unit = some multiplier.toNat ∧
        (unit = none → rest = []) := by
  constructor
  · intro taken
    cases t with
    | nil =>
      simp only [takeMultiplier, Except.ok.injEq, Prod.mk.injEq] at taken
      obtain ⟨rfl, rfl⟩ := taken
      exact ⟨none, rfl, rfl, fun _ => rfl⟩
    | cons c t =>
      simp only [takeMultiplier] at taken
      split at taken
      · rename_i found
        simp only [Except.ok.injEq, Prod.mk.injEq] at taken
        obtain ⟨rfl, rfl⟩ := taken
        refine ⟨some c, rfl, ?_, by simp⟩
        rw [← multiplier_seconds, found, Option.map_some]
      · cases taken
  · rintro ⟨unit, rfl, seconds, last⟩
    cases unit with
    | none =>
      have one : multiplier = 1 := UInt32.toNat_inj.1 (Option.some.inj seconds).symm
      rw [last rfl, one]
      rfl
    | some c =>
      rw [← multiplier_seconds] at seconds
      obtain ⟨m, found, same⟩ := Option.map_eq_some_iff.1 seconds
      simp [takeMultiplier, found, UInt32.toNat_inj.1 same]

theorem scaled_guard {val : UInt32} :
    (val ≠ 0 ∧ maxUint32 / val < multiplier) ↔ 2 ^ 32 ≤ val.toNat * multiplier.toNat := by
  have top : maxUint32.toNat = 2 ^ 32 - 1 := rfl
  by_cases zero : val = 0
  · simp [zero]
  · have positive : 0 < val.toNat := Nat.pos_of_ne_zero fun h => zero (UInt32.toNat_inj.1 h)
    rw [UInt32.lt_iff_toNat_lt, UInt32.toNat_div, top, Nat.div_lt_iff_lt_mul positive, Nat.mul_comm]
    simp only [zero, ne_eq, not_false_eq_true, true_and]
    omega

theorem add_scaled_ok {val sum : UInt32} :
    addScaled total val multiplier = .ok sum ↔
      val.toNat * multiplier.toNat < 2 ^ 32 ∧ total.toNat + val.toNat * multiplier.toNat = sum.toNat := by
  have top : maxUint32.toNat = 2 ^ 32 - 1 := rfl
  unfold addScaled
  by_cases fits : val.toNat * multiplier.toNat < 2 ^ 32
  · have product : (val * multiplier).toNat = val.toNat * multiplier.toNat := by
      rw [UInt32.toNat_mul, Nat.mod_eq_of_lt fits]
    have below : val * multiplier ≤ maxUint32 := by
      rw [UInt32.le_iff_toNat_le, product, top]
      omega
    have room : maxUint32 - val * multiplier < total ↔ 2 ^ 32 ≤ total.toNat + val.toNat * multiplier.toNat := by
      rw [UInt32.lt_iff_toNat_lt, UInt32.toNat_sub_of_le _ _ below, top, product]
      omega
    rw [if_neg fun guard => Nat.not_lt.2 (scaled_guard.1 guard) fits]
    by_cases more : total.toNat + val.toNat * multiplier.toNat < 2 ^ 32
    · have exact_sum : (total + val * multiplier).toNat = total.toNat + val.toNat * multiplier.toNat := by
        rw [UInt32.toNat_add, product, Nat.mod_eq_of_lt more]
      rw [if_neg fun guard => Nat.not_lt.2 (room.1 guard) more, Except.ok.injEq, ← exact_sum, UInt32.toNat_inj]
      exact (and_iff_right fits).symm
    · rw [if_pos (room.2 (Nat.not_lt.1 more))]
      have := sum.toNat_lt
      constructor
      · intro h
        cases h
      · intro h
        omega
  · rw [if_pos (scaled_guard.2 (Nat.not_lt.1 fits))]
    constructor
    · intro h
      cases h
    · intro h
      omega

theorem reads_nil : Reads [] s ↔ s = [] :=
  ⟨fun reads => reads.whole, fun empty => ⟨empty, by simp, by simp⟩⟩

theorem reads_cons :
    Reads (item :: items) s ↔
      ∃ rest, s = item.text ++ rest ∧ item.Ok ∧ (item.unit = none → items = []) ∧ Reads items rest := by
  constructor
  · intro reads
    refine ⟨_, reads.whole, reads.each item (by simp), ?_, rfl, ?_, ?_⟩
    · intro missing
      cases items with
      | nil => rfl
      | cons next items =>
        have := reads.closed item (by simp)
        simp [missing] at this
    · exact fun other member => reads.each other (by simp [member])
    · intro other member
      cases items with
      | nil => simp at member
      | cons next items => exact reads.closed other (by simp [member])
  · rintro ⟨rest, rfl, ok, last, reads⟩
    refine ⟨by simp [reads.whole], ?_, ?_⟩
    · intro other member
      rcases List.mem_cons.1 member with rfl | inside
      · exact ok
      · exact reads.each other inside
    · intro other member
      cases items with
      | nil => simp at member
      | cons next items =>
        rcases List.mem_cons.1 (by simpa using member) with rfl | inside
        · cases missing : other.unit with
          | none => exact absurd (last missing) (by simp)
          | some c => rfl
        · exact reads.closed other (by simpa using inside)

theorem item_text_not_nil (ok : item.Ok) : item.text ≠ [] := by
  simp [TimeItem.text, ok.digits.1]

theorem reads_empty (reads : Reads items []) : items = [] := by
  cases items with
  | nil => rfl
  | cons item items =>
    obtain ⟨rest, eq, ok, _⟩ := reads_cons.1 reads
    exact absurd (List.append_eq_nil_iff.1 eq.symm).1 (item_text_not_nil ok)

theorem digits_end (ok : item.Ok) (last : item.unit = none → rest = []) :
    (item.text ++ rest).takeWhile decimalByte = item.digits ∧
      (item.text ++ rest).dropWhile decimalByte = item.unit.toList ++ rest := by
  have stop : ∀ b ∈ (item.unit.toList ++ rest).head?, decimalByte b = false := by
    cases unit : item.unit with
    | none => simp [last unit]
    | some c =>
      have letter := ok.unit
      rw [unit] at letter
      simpa using unit_not_decimal letter
  rw [TimeItem.text, List.append_assoc, List.takeWhile_append_of_pos ok.digits.2,
    List.dropWhile_append_of_pos ok.digits.2]
  cases tail : item.unit.toList ++ rest with
  | nil => simp
  | cons b t =>
    have other := stop b (by simp [tail])
    simp [other]

theorem convert_item {sum : UInt32} (fuel start : Nat) (ok : item.Ok)
    (last : item.unit = none → rest = []) (exact_sum : total.toNat + item.value = sum.toNat) :
    convertLoop (fuel + 1) start total (item.text ++ rest) =
      convertLoop fuel (start + item.text.length) sum rest := by
  obtain ⟨digits, tail⟩ := digits_end ok last
  obtain ⟨seconds, found⟩ := Option.isSome_iff_exists.1 ok.unit
  have small := unit_seconds_small found
  have parsed : parseUintSized 10 32 item.digits = some (decimalValue item.digits) :=
    parse_uint_sized_iff.2 ⟨ok.digits, rfl, ok.fits⟩
  have taken : takeMultiplier ((item.text ++ rest).dropWhile decimalByte) = .ok (UInt32.ofNat seconds, rest) :=
    take_multiplier_ok.2 ⟨item.unit, tail, by rw [UInt32.toNat_ofNat_of_lt' small, found], last⟩
  have scaled := ok.scaled
  rw [TimeItem.value, found, Option.getD_some] at scaled exact_sum
  have added : addScaled total (UInt32.ofNat (decimalValue item.digits)) (UInt32.ofNat seconds) = .ok sum := by
    rw [add_scaled_ok, UInt32.toNat_ofNat_of_lt' ok.fits, UInt32.toNat_ofNat_of_lt' small]
    exact ⟨scaled, exact_sum⟩
  have moved : (item.text ++ rest).length - rest.length = item.text.length := by simp
  generalize whole : item.text ++ rest = s at digits taken moved ⊢
  cases s with
  | nil => exact absurd (List.append_eq_nil_iff.1 whole).1 (item_text_not_nil ok)
  | cons b s => simp only [convertLoop, digits, if_neg ok.digits.1, parsed, taken, added, moved]

theorem convert_round {n : UInt32} (some : s ≠ []) (converted : convertLoop (fuel + 1) start total s = .ok n) :
    ∃ (item : TimeItem) (rest : Bytes) (sum : UInt32),
      s = item.text ++ rest ∧ item.Ok ∧ (item.unit = none → rest = []) ∧
      total.toNat + item.value = sum.toNat ∧
      convertLoop fuel (start + item.text.length) sum rest = .ok n := by
  cases s with
  | nil => contradiction
  | cons b s =>
    simp only [convertLoop] at converted
    split at converted
    · cases converted
    · split at converted
      · cases converted
      · rename_i val parsed
        obtain ⟨numeral, rfl, fits⟩ := parse_uint_sized_iff.1 parsed
        split at converted
        · cases converted
        · rename_i multiplier rest taken
          obtain ⟨unit, tail, seconds, last⟩ := take_multiplier_ok.1 taken
          split at converted
          · cases converted
          · rename_i sum added
            obtain ⟨scaled, exact_sum⟩ := add_scaled_ok.1 added
            rw [UInt32.toNat_ofNat_of_lt' fits] at scaled exact_sum
            have whole : b :: s = TimeItem.text ⟨(b :: s).takeWhile decimalByte, unit⟩ ++ rest := by
              rw [TimeItem.text, List.append_assoc, ← tail, List.takeWhile_append_dropWhile]
            refine ⟨⟨(b :: s).takeWhile decimalByte, unit⟩, rest, sum, whole, ⟨numeral, ?_, fits, ?_⟩, last, ?_, ?_⟩
            · simp [seconds]
            · simpa [TimeItem.value, seconds] using scaled
            · simpa [TimeItem.value, seconds] using exact_sum
            · have moved := congrArg (fun t => t.length - rest.length) whole
              simp only [List.length_append, Nat.add_sub_cancel] at moved
              rwa [moved] at converted

theorem convert_front {front back : List TimeItem} (start : Nat) (total : UInt32) (fuel : Nat)
    (reads : Reads (front ++ back) s) (fits : total.toNat + itemsValue front < 2 ^ 32) :
    ∃ (rest : Bytes) (sum : UInt32), Reads back rest ∧ s = (front.map TimeItem.text).flatten ++ rest ∧
      sum.toNat = total.toNat + itemsValue front ∧
      convertLoop (front.length + fuel) start total s =
        convertLoop fuel (start + (front.map TimeItem.text).flatten.length) sum rest := by
  induction front generalizing start total s with
  | nil => exact ⟨s, total, reads, rfl, rfl, by simp⟩
  | cons item front ih =>
    obtain ⟨rest, rfl, ok, last, reads⟩ := reads_cons.1 reads
    simp only [itemsValue] at fits ⊢
    have word : (UInt32.ofNat (total.toNat + item.value)).toNat = total.toNat + item.value :=
      UInt32.toNat_ofNat_of_lt' (show _ < 2 ^ 32 by omega)
    have ended : item.unit = none → rest = [] := by
      intro missing
      rw [last missing] at reads
      exact reads_nil.1 reads
    obtain ⟨tail, sum, readsBack, rfl, sum_eq, run⟩ :=
      ih (start + item.text.length) (UInt32.ofNat (total.toNat + item.value)) reads (by omega)
    refine ⟨tail, sum, readsBack, by simp, by omega, ?_⟩
    rw [List.length_cons, Nat.add_right_comm, convert_item (front.length + fuel) start ok ended word.symm, run]
    simp [Nat.add_assoc]

theorem convert_loop_end (fuel start : Nat) (total : UInt32) : convertLoop fuel start total [] = .ok total := by
  cases fuel <;> rfl

theorem reads_length (reads : Reads items s) : items.length ≤ s.length := by
  induction items generalizing s with
  | nil => simp
  | cons item items ih =>
    obtain ⟨rest, rfl, ok, _, reads⟩ := reads_cons.1 reads
    have positive := List.length_pos_of_ne_nil (item_text_not_nil ok)
    have := ih reads
    simp
    omega

theorem convert_loop_reads {n : UInt32} (budget : s.length ≤ fuel)
    (converted : convertLoop fuel start total s = .ok n) :
    ∃ items, Reads items s ∧ total.toNat + itemsValue items = n.toNat := by
  induction fuel generalizing start total s with
  | zero =>
    have empty : s = [] := List.length_eq_zero_iff.1 (by omega)
    rw [empty, convert_loop_end, Except.ok.injEq] at converted
    exact ⟨[], reads_nil.2 empty, by simp [itemsValue, converted]⟩
  | succ fuel ih =>
    by_cases empty : s = []
    · rw [empty, convert_loop_end, Except.ok.injEq] at converted
      exact ⟨[], reads_nil.2 empty, by simp [itemsValue, converted]⟩
    · obtain ⟨item, rest, sum, rfl, ok, last, exact_sum, converted⟩ := convert_round empty converted
      have positive := List.length_pos_of_ne_nil (item_text_not_nil ok)
      obtain ⟨items, reads, sum_eq⟩ := ih (by simp at budget; omega) converted
      refine ⟨item :: items, reads_cons.2 ⟨rest, rfl, ok, ?_, reads⟩, by rw [itemsValue]; omega⟩
      intro missing
      rw [last missing] at reads
      exact reads_empty reads

theorem convert_loop_sum {n : UInt32} (budget : s.length ≤ fuel) (reads : Reads items s)
    (exact_sum : total.toNat + itemsValue items = n.toNat) : convertLoop fuel start total s = .ok n := by
  have top := n.toNat_lt
  have short := reads_length reads
  obtain ⟨rest, sum, readsBack, _, sum_eq, run⟩ := convert_front start total (fuel - items.length)
    (show Reads (items ++ []) s by simpa using reads) (by omega)
  rw [Nat.add_sub_cancel' (by omega)] at run
  rw [run, reads_nil.1 readsBack, convert_loop_end]
  congr 1
  exact UInt32.toNat_inj.1 (by omega)

theorem reads_not_nil (filled : items ≠ []) (reads : Reads items s) : s ≠ [] := by
  rintro rfl
  exact filled (reads_empty reads)

section Formatting

theorem format_reads {units : List (UInt8 × UInt32)} (seconds : UInt32)
    (scale : ∀ entry ∈ units, unitSeconds (some entry.1) = some entry.2.toNat ∧ 0 < entry.2.toNat) :
    ∃ items, Reads items (formatLoop units seconds) ∧ (∀ item ∈ items, item.unit.isSome) ∧
      itemsValue items + units.foldl (fun rest entry => rest % entry.2.toNat) seconds.toNat =
        seconds.toNat := by
  induction units generalizing seconds with
  | nil => exact ⟨[], reads_nil.2 rfl, by simp, by simp [itemsValue]⟩
  | cons entry units ih =>
    obtain ⟨suffix, value⟩ := entry
    obtain ⟨same, positive⟩ := scale (suffix, value) (by simp)
    have later : ∀ entry ∈ units, unitSeconds (some entry.1) = some entry.2.toNat ∧ 0 < entry.2.toNat :=
      fun entry member => scale entry (by simp [member])
    simp only [formatLoop, List.foldl_cons]
    split
    · obtain ⟨items, reads, closed, sum_eq⟩ := ih (seconds % value) later
      rw [UInt32.toNat_mod] at sum_eq
      have count : (⟨itoa (seconds / value).toNat, some suffix⟩ : TimeItem).value =
          seconds.toNat / value.toNat * value.toNat := by
        simp [TimeItem.value, same, decimal_value_itoa]
      have whole := Nat.div_add_mod' seconds.toNat value.toNat
      have top := seconds.toNat_lt
      refine ⟨⟨itoa (seconds / value).toNat, some suffix⟩ :: items, reads_cons.2 ⟨_, ?_, ⟨?_, ?_, ?_, ?_⟩, ?_, reads⟩,
        ?_, ?_⟩
      · simp [TimeItem.text]
      · exact numeral_itoa _
      · simp [same]
      · rw [decimal_value_itoa]
        exact (seconds / value).toNat_lt
      · rw [count]
        omega
      · intro missing
        cases missing
      · simpa using closed
      · simp only [itemsValue, count]
        omega
    · rename_i below
      have less : seconds.toNat < value.toNat := by
        rw [UInt32.le_iff_toNat_le] at below
        omega
      rw [Nat.mod_eq_of_lt less]
      exact ih seconds later

theorem time_units_scale : ∀ entry ∈ timeUnits,
    unitSeconds (some entry.1) = some entry.2.toNat ∧ 0 < entry.2.toNat := by
  simp only [timeUnits, List.forall_mem_cons]
  exact ⟨by decide, by decide, by decide, by decide, by decide, List.forall_mem_nil _⟩

theorem convert_format (seconds : UInt32) : convertSshTime (formatSshTime seconds) = .ok seconds := by
  unfold formatSshTime
  split
  · rename_i zero
    rw [zero]
    decide +kernel
  · rename_i positive
    obtain ⟨items, reads, _, sum_eq⟩ := format_reads seconds time_units_scale
    have rest : timeUnits.foldl (fun rest entry => rest % entry.2.toNat) seconds.toNat = 0 := by
      simp [timeUnits, Nat.mod_one]
    rw [rest, Nat.add_zero] at sum_eq
    have filled : items ≠ [] := by
      rintro rfl
      exact positive (UInt32.toNat_inj.1 sum_eq.symm)
    rw [convertSshTime, if_neg (reads_not_nil filled reads)]
    exact convert_loop_sum (Nat.le_refl _) reads (by simpa using sum_eq)

end Formatting

/-- What is accepted is a sequence of items that fit, the result is their integer sum, the word
    accumulated before each item is the exact sum of the items before it, and a formatted time is
    read back. -/
theorem ssh_times_exact :
    (∀ (s : Bytes) (n : Nat), (convertSshTime s).map UInt32.toNat = .ok n ↔
      ∃ items, items ≠ [] ∧ Reads items s ∧ itemsValue items = n ∧ n ≤ 2 ^ 32 - 1) ∧
    (∀ (s : Bytes) (front back : List TimeItem), Reads (front ++ back) s → front ++ back ≠ [] →
      itemsValue front ≤ 2 ^ 32 - 1 →
      ∃ (rest : Bytes) (sum : UInt32), Reads back rest ∧ sum.toNat = itemsValue front ∧
        convertSshTime s = convertLoop (s.length - front.length) (front.map TimeItem.text).flatten.length sum rest) ∧
    ∀ seconds : UInt32, convertSshTime (formatSshTime seconds) = .ok seconds := by
  refine ⟨?_, ?_, convert_format⟩
  · intro s n
    constructor
    · intro converted
      obtain ⟨word, result, rfl⟩ := except_map_ok converted
      by_cases empty : s = []
      · rw [convertSshTime, if_pos empty] at result
        cases result
      · rw [convertSshTime, if_neg empty] at result
        obtain ⟨items, reads, exact_sum⟩ := convert_loop_reads (Nat.le_refl _) result
        have top := word.toNat_lt
        refine ⟨items, ?_, reads, by simpa using exact_sum, by omega⟩
        rintro rfl
        exact empty (reads_nil.1 reads)
    · rintro ⟨items, filled, reads, exact_sum, small⟩
      have word : (UInt32.ofNat n).toNat = n := UInt32.toNat_ofNat_of_lt' (show n < 2 ^ 32 by omega)
      rw [convertSshTime, if_neg (reads_not_nil filled reads),
        convert_loop_sum (n := UInt32.ofNat n) (Nat.le_refl _) reads (by simpa [word] using exact_sum),
        Except.map, word]
  · intro s front back reads filled fits
    have short := reads_length reads
    rw [List.length_append] at short
    obtain ⟨rest, sum, readsBack, _, sum_eq, run⟩ := convert_front 0 0 (s.length - front.length)
      reads (by simp; omega)
    refine ⟨rest, sum, readsBack, by simpa using sum_eq, ?_⟩
    rw [Nat.add_sub_cancel' (by omega), Nat.zero_add] at run
    rw [convertSshTime, if_neg (reads_not_nil filled reads), run]

theorem ssh_times_exact_minutes :
    (convertSshTime (text "1h30M")).map UInt32.toNat = .ok 5400 ∧
    (∃ (rest : Bytes) (sum : UInt32), Reads [⟨text "30", some 77⟩] rest ∧ sum.toNat = 3600 ∧
      convertSshTime (text "1h30M") = convertLoop 4 2 sum rest) ∧
    convertSshTime (formatSshTime 5400) = .ok 5400 := by
  have reads : Reads [⟨text "1", some 104⟩, ⟨text "30", some 77⟩] (text "1h30M") := by
    refine ⟨by decide +kernel, ?_, by decide +kernel⟩
    intro item member
    rcases List.mem_cons.1 member with rfl | member
    · exact ⟨by decide +kernel, by decide +kernel, by decide +kernel, by decide +kernel⟩
    · rw [List.mem_singleton.1 member]
      exact ⟨by decide +kernel, by decide +kernel, by decide +kernel, by decide +kernel⟩
  refine ⟨(ssh_times_exact.1 _ _).2 ⟨_, by simp, reads, by decide +kernel, by decide⟩, ?_, ssh_times_exact.2.2 5400⟩
  obtain ⟨rest, sum, back, sum_eq, run⟩ := ssh_times_exact.2.1 _ [⟨text "1", some 104⟩] _ reads (by simp)
    (by decide +kernel)
  exact ⟨rest, sum, back, sum_eq.trans (by decide +kernel), run⟩

end SshTimes
