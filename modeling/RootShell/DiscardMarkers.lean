import RootShell.ByteLines
import RootShell.FuelledLoops
import RootShell.PiecewiseFeeds

/-!
The filter that takes discard markers out of the terminal's output: four magic bytes and
four index bytes, of which a control character may come back as an echoed pair of a caret
and a second byte. What may be the start of a marker is held back for the next read.
-/
namespace DiscardMarkers
open ByteLines FuelledLoops PiecewiseFeeds

variable {data rest index before read held : Bytes} {b x : UInt8} {k n : Nat}

def discardMarkerMagic : Bytes := [0xFF, 0xC0, 0xC1, 0xFF]

section Filtering

def pairNext : Bytes → Bool
  | [] => false
  | next :: _ => decide (0x3F ≤ next ∧ next ≤ 0x5F)

/-- How many bytes a number of logical index bytes take. -/
def consumeMarkerIndex : Nat → Bytes → Option Nat
  | 0, _ => some 0
  | _ + 1, [] => none
  | logicalBytes + 1, b :: rest =>
    if b = 0x5E ∧ pairNext rest = true then (consumeMarkerIndex logicalBytes rest.tail).map (· + 2)
    else (consumeMarkerIndex logicalBytes rest).map (· + 1)

def keep (b : UInt8) (r : Bytes × Bytes) : Bytes × Bytes := (r.1, b :: r.2)

def filterLoop : Nat → Bytes → Bytes × Bytes
  | _, [] => ([], [])
  | 0, _ :: _ => ([], [])
  | fuel + 1, b :: rest =>
    if b ≠ 0xFF then keep b (filterLoop fuel rest)
    else if (b :: rest).length < 4 then
      if b :: rest <+: discardMarkerMagic then (b :: rest, []) else keep b (filterLoop fuel rest)
    else if ¬ discardMarkerMagic <+: b :: rest then keep b (filterLoop fuel rest)
    else
      match consumeMarkerIndex 4 ((b :: rest).drop 4) with
      | none => (b :: rest, [])
      | some indexBytes => filterLoop fuel ((b :: rest).drop (4 + indexBytes))

/-- One read. Without the first magic byte there is nothing to look for. -/
def filter (held data : Bytes) : Bytes × Bytes :=
  if data = [] then (held, data)
  else if 0xFF ∈ held ++ data then filterLoop (held ++ data).length (held ++ data)
  else ([], held ++ data)

end Filtering

section Scanning

def scan (data : Bytes) : Bytes × Bytes := filterLoop data.length data

theorem consume_drop_length (n : Nat) (nonempty : data ≠ []) : (data.drop (4 + n)).length < data.length := by
  have := List.length_pos_of_ne_nil nonempty
  rw [List.length_drop]
  omega

theorem loop_scan {fuel : Nat} (enough : data.length ≤ fuel) : filterLoop fuel data = scan data := by
  refine enough_fuel ?_ ?_ enough (Nat.le_refl _)
  · intro fuel
    cases fuel <;> rfl
  · intro b rest f g same
    simp only [filterLoop, same rest (Nat.le_refl _)]
    cases consumeMarkerIndex 4 ((b :: rest).drop 4) with
    | none => rfl
    | some n =>
      have shorter := consume_drop_length n (List.cons_ne_nil b rest)
      dsimp only
      rw [same _ (Nat.le_of_lt_succ shorter)]

theorem scan_nil : scan [] = ([], []) := rfl

theorem scan_plain (plain : ¬ discardMarkerMagic <+: b :: rest)
    (unlike : ¬ b :: rest <+: discardMarkerMagic) : scan (b :: rest) = keep b (scan rest) := by
  simp [scan, filterLoop, plain, unlike]

theorem scan_short (plain : ¬ discardMarkerMagic <+: b :: rest)
    (like : b :: rest <+: discardMarkerMagic) : scan (b :: rest) = (b :: rest, []) := by
  have first : b = 0xFF := (List.cons_prefix_cons.1 like).1
  have short : (b :: rest).length < 4 := by
    have fits : (b :: rest).length ≤ 4 := like.length_le
    rcases Nat.lt_or_eq_of_le fits with short | full
    · exact short
    · exact absurd (like.eq_of_length full ▸ List.prefix_rfl) plain
  rw [scan, List.length_cons, filterLoop, if_neg (not_not.2 first), if_pos short, if_pos like]

theorem scan_marker (index : Bytes) :
    scan (discardMarkerMagic ++ index) =
      match consumeMarkerIndex 4 index with
      | none => (discardMarkerMagic ++ index, [])
      | some n => scan (index.drop n) := by
  have magic : discardMarkerMagic <+: 0xFF :: ([0xC0, 0xC1, 0xFF] ++ index) := List.prefix_append _ _
  have long : ¬ (0xFF :: ([0xC0, 0xC1, 0xFF] ++ index)).length < 4 := by simp
  have unfolded : scan (discardMarkerMagic ++ index) =
      filterLoop (index.length + 3 + 1) (0xFF :: ([0xC0, 0xC1, 0xFF] ++ index)) := by
    simp [scan, discardMarkerMagic]
  rw [unfolded, filterLoop, if_neg (by simp), if_neg long, if_neg (not_not.2 magic)]
  have behind (n : Nat) : (0xFF :: ([0xC0, 0xC1, 0xFF] ++ index)).drop (4 + n) = index.drop n := by
    rw [← List.drop_drop]
    rfl
  rw [show (0xFF :: ([0xC0, 0xC1, 0xFF] ++ index)).drop 4 = index from rfl]
  cases consumeMarkerIndex 4 index with
  | none => rfl
  | some n =>
    dsimp only
    rw [behind, loop_scan]
    rw [List.length_drop]
    omega

end Scanning

section Index

theorem consume_le (consumed : consumeMarkerIndex k index = some n) : n ≤ index.length := by
  induction k generalizing index n with
  | zero =>
    cases consumed
    exact Nat.zero_le _
  | succ k ih =>
    cases index with
    | nil => cases consumed
    | cons b rest =>
      rw [consumeMarkerIndex] at consumed
      split at consumed
      · rename_i pair
        obtain ⟨m, inner, rfl⟩ := Option.map_eq_some_iff.1 consumed
        have := ih inner
        cases rest with
        | nil => simp [pairNext] at pair
        | cons c rest =>
          simp only [List.tail_cons, List.length_cons] at this ⊢
          omega
      · obtain ⟨m, inner, rfl⟩ := Option.map_eq_some_iff.1 consumed
        have := ih inner
        simp only [List.length_cons]
        omega

theorem pair_next_append (nonempty : data ≠ []) (more : Bytes) : pairNext (data ++ more) = pairNext data := by
  obtain ⟨b, rest, rfl⟩ := List.exists_cons_of_ne_nil nonempty
  rfl

theorem consume_inner (more : Bytes) (consumed : consumeMarkerIndex k index = some n)
    (left : n < index.length) : consumeMarkerIndex k (index ++ more) = some n := by
  induction k generalizing index n with
  | zero => exact consumed
  | succ k ih =>
    cases index with
    | nil => cases consumed
    | cons b rest =>
      have nonempty : rest ≠ [] := by
        rintro rfl
        simp only [consumeMarkerIndex, pairNext, Bool.false_eq_true, and_false, if_false] at consumed
        obtain ⟨m, _, rfl⟩ := Option.map_eq_some_iff.1 consumed
        simp at left
      rw [consumeMarkerIndex] at consumed
      rw [List.cons_append, consumeMarkerIndex, pair_next_append nonempty]
      split at consumed
      · rename_i pair
        rw [if_pos pair, List.tail_append_of_ne_nil nonempty]
        obtain ⟨m, inner, rfl⟩ := Option.map_eq_some_iff.1 consumed
        rw [ih inner (by simp only [List.length_cons, List.length_tail] at left ⊢; omega)]
        rfl
      · rename_i raw
        rw [if_neg raw]
        obtain ⟨m, inner, rfl⟩ := Option.map_eq_some_iff.1 consumed
        rw [ih inner (by simp only [List.length_cons] at left; omega)]
        rfl

theorem consume_cons (k : Nat) (b : UInt8) (rest : Bytes) :
    consumeMarkerIndex (k + 1) (b :: rest) =
      if b = 0x5E ∧ pairNext rest = true then (consumeMarkerIndex k rest.tail).map (· + 2)
      else (consumeMarkerIndex k rest).map (· + 1) := rfl

theorem consume_last (k : Nat) (index : Bytes) :
    consumeMarkerIndex (k + 1) index =
      (consumeMarkerIndex k index).bind fun m => (consumeMarkerIndex 1 (index.drop m)).map (m + ·) := by
  induction k generalizing index with
  | zero => simp [consumeMarkerIndex]
  | succ k ih =>
    cases index with
    | nil => rfl
    | cons b rest =>
      rw [consume_cons (k + 1), consume_cons k]
      by_cases pair : b = 0x5E ∧ pairNext rest = true
      · rw [if_pos pair, if_pos pair, ih]
        cases rest with
        | nil => simp [pairNext] at pair
        | cons c rest =>
          rw [List.tail_cons]
          cases consumeMarkerIndex k rest with
          | none => rfl
          | some m => simp [Function.comp_def, Nat.add_right_comm]
      · rw [if_neg pair, if_neg pair, ih]
        cases consumeMarkerIndex k rest with
        | none => rfl
        | some m => simp [Function.comp_def, Nat.add_right_comm]

def CaretLast (index : Bytes) : Prop := ∃ m, consumeMarkerIndex 3 index = some m ∧ index.drop m = [0x5E]

theorem consume_one_append (more : Bytes) (longer : ¬ (data = [0x5E] ∧ pairNext more = true))
    (nonempty : data ≠ []) : consumeMarkerIndex 1 (data ++ more) = consumeMarkerIndex 1 data := by
  obtain ⟨b, rest, rfl⟩ := List.exists_cons_of_ne_nil nonempty
  rw [List.cons_append, consume_cons, consume_cons]
  cases rest with
  | nil =>
    have single : ¬ (b = 0x5E ∧ pairNext more = true) := fun pair => longer ⟨by rw [pair.1], pair.2⟩
    rw [List.nil_append, if_neg single, if_neg (by simp [pairNext])]
    rfl
  | cons c rest => rfl

theorem consume_append (more : Bytes) (consumed : consumeMarkerIndex 4 index = some n)
    (closed : ¬ (CaretLast index ∧ pairNext more = true)) : consumeMarkerIndex 4 (index ++ more) = some n := by
  rw [consume_last] at consumed ⊢
  obtain ⟨m, inner, last⟩ := Option.bind_eq_some_iff.1 consumed
  have nonempty : index.drop m ≠ [] := by
    intro empty
    rw [empty] at last
    cases last
  have left : m < index.length := by
    by_contra none
    exact nonempty (List.drop_eq_nil_of_le (by omega))
  rw [consume_inner more inner left, Option.bind_some, List.drop_append_of_le_length (by omega),
    consume_one_append more _ nonempty]
  · exact last
  · exact fun pair => closed ⟨⟨m, inner, pair.1⟩, pair.2⟩

theorem caret_last_consumed (caret : CaretLast index) : consumeMarkerIndex 4 index = some index.length := by
  obtain ⟨m, inner, last⟩ := caret
  have lengths := congrArg List.length last
  simp only [List.length_drop, List.length_cons, List.length_nil] at lengths
  have one : consumeMarkerIndex 1 [0x5E] = some 1 := rfl
  rw [consume_last, inner, Option.bind_some, last, one, Option.map_some]
  congr 1
  omega

theorem caret_last_pair (caret : CaretLast index) (pair : pairNext (x :: rest) = true) :
    consumeMarkerIndex 4 (index ++ x :: rest) = some (index.length + 1) := by
  obtain ⟨m, inner, last⟩ := caret
  have lengths := congrArg List.length last
  simp only [List.length_drop, List.length_cons, List.length_nil] at lengths
  have left : m < index.length := by omega
  have two : consumeMarkerIndex 1 ([0x5E] ++ x :: rest) = some 2 := by
    rw [List.singleton_append, consume_cons, if_pos ⟨rfl, pair⟩]
    rfl
  rw [consume_last, consume_inner _ inner left, Option.bind_some, List.drop_append_of_le_length (by omega), last, two,
    Option.map_some]
  congr 1
  omega

end Index

section Splitting

inductive CaretEnd : Bytes → Prop where
  | here {index : Bytes} (last : CaretLast index) : CaretEnd (discardMarkerMagic ++ index)
  | marker {index : Bytes} {n : Nat} (whole : consumeMarkerIndex 4 index = some n)
      (later : CaretEnd (index.drop n)) : CaretEnd (discardMarkerMagic ++ index)
  | byte {b : UInt8} {rest : Bytes} (plain : ¬ discardMarkerMagic <+: b :: rest) (later : CaretEnd rest) :
      CaretEnd (b :: rest)

def Torn (before read : Bytes) : Prop := CaretEnd before ∧ pairNext read = true

theorem caret_end_nil : ¬ CaretEnd [] := by
  intro caret
  generalize empty : ([] : Bytes) = data at caret
  cases caret with
  | here last => simp [discardMarkerMagic] at empty
  | marker whole later => simp [discardMarkerMagic] at empty
  | byte plain later => cases empty

theorem caret_end_magic :
    CaretEnd (discardMarkerMagic ++ index) ↔
      CaretLast index ∨ ∃ n, consumeMarkerIndex 4 index = some n ∧ CaretEnd (index.drop n) := by
  constructor
  · intro caret
    generalize same : discardMarkerMagic ++ index = data at caret
    cases caret with
    | here last =>
      rw [List.append_cancel_left same]
      exact Or.inl last
    | marker whole later =>
      rw [List.append_cancel_left same]
      exact Or.inr ⟨_, whole, later⟩
    | byte plain later => exact absurd (same ▸ List.prefix_append _ _) plain
  · rintro (last | ⟨n, whole, later⟩)
    · exact .here last
    · exact .marker whole later

theorem caret_end_byte (plain : ¬ discardMarkerMagic <+: b :: rest) : CaretEnd (b :: rest) ↔ CaretEnd rest := by
  constructor
  · intro caret
    generalize same : b :: rest = data at caret
    cases caret with
    | here last => exact absurd (same ▸ List.prefix_append _ _) plain
    | marker whole later => exact absurd (same ▸ List.prefix_append _ _) plain
    | byte _ later =>
      cases same
      exact later
  · exact .byte plain

theorem caret_end_length (caret : CaretEnd data) : 4 < data.length := by
  induction caret with
  | @here index last =>
    obtain ⟨m, _, last⟩ := last
    have lengths := congrArg List.length last
    simp only [List.length_drop, List.length_cons, List.length_nil] at lengths
    simp only [discardMarkerMagic, List.length_append, List.length_cons, List.length_nil]
    omega
  | @marker index n whole later ih =>
    simp only [List.length_drop] at ih
    simp only [discardMarkerMagic, List.length_append, List.length_cons, List.length_nil]
    omega
  | byte plain later ih =>
    simp only [List.length_cons]
    omega

theorem scan_torn (caret : CaretEnd before) (pair : pairNext (x :: rest) = true) :
    (scan before).1 = [] ∧ scan (before ++ x :: rest) = ((scan rest).1, (scan before).2 ++ (scan rest).2) := by
  induction caret with
  | @here index last =>
    rw [List.append_assoc, scan_marker, scan_marker, caret_last_consumed last, caret_last_pair last pair]
    have behind : (index ++ x :: rest).drop (index.length + 1) = rest := by
      rw [← List.drop_drop, List.drop_left]
      rfl
    simp [scan_nil, behind]
  | @marker index n whole later ih =>
    have closed : ¬ (CaretLast index ∧ pairNext (x :: rest) = true) := by
      rintro ⟨last, _⟩
      rw [caret_last_consumed last] at whole
      cases whole
      rw [List.drop_length] at later
      exact caret_end_nil later
    rw [List.append_assoc, scan_marker, scan_marker, whole, consume_append _ whole closed]
    dsimp only
    rw [List.drop_append_of_le_length (consume_le whole)]
    exact ih
  | @byte b rest' plain later ih =>
    have long : 4 < (b :: rest').length := Nat.lt_succ_of_lt (caret_end_length later)
    have unlike : ¬ b :: rest' <+: discardMarkerMagic := by
      intro like
      have := like.length_le
      simp only [discardMarkerMagic, List.length_cons, List.length_nil] at this long
      omega
    have still : ¬ discardMarkerMagic <+: b :: (rest' ++ x :: rest) := by
      intro magic
      exact plain (List.prefix_of_prefix_length_le magic (List.prefix_append (b :: rest') _) (by
        simp only [discardMarkerMagic, List.length_cons, List.length_nil] at long ⊢
        omega))
    have longer : ¬ b :: (rest' ++ x :: rest) <+: discardMarkerMagic :=
      fun like => unlike ((List.prefix_append (b :: rest') _).trans like)
    rw [List.cons_append, scan_plain plain unlike, scan_plain still longer, ih.2]
    exact ⟨ih.1, rfl⟩

theorem scan_other (other : b ≠ 0xFF) : scan (b :: rest) = keep b (scan rest) :=
  scan_plain (fun magic => other (List.cons_prefix_cons.1 magic).1.symm)
    (fun like => other (List.cons_prefix_cons.1 like).1)

theorem scan_second (pair : pairNext (x :: rest) = true) : scan (x :: rest) = keep x (scan rest) := by
  apply scan_other
  rintro rfl
  simp [pairNext] at pair

theorem scan_smooth (smooth : ¬ Torn before read) :
    scan (before ++ read) =
      ((scan ((scan before).1 ++ read)).1, (scan before).2 ++ (scan ((scan before).1 ++ read)).2) := by
  induction size : before.length using Nat.strongRecOn generalizing before with
  | ind k ih =>
    cases before with
    | nil => simp [scan_nil]
    | cons b rest =>
      by_cases magic : discardMarkerMagic <+: b :: rest
      · obtain ⟨index, same⟩ := magic
        rw [← same] at smooth size ⊢
        rw [List.append_assoc, scan_marker index, scan_marker (index ++ read)]
        cases whole : consumeMarkerIndex 4 index with
        | none =>
          rw [← scan_marker (index ++ read), ← List.append_assoc]
          rfl
        | some n =>
          have closed : ¬ (CaretLast index ∧ pairNext read = true) :=
            fun torn => smooth ⟨caret_end_magic.2 (Or.inl torn.1), torn.2⟩
          have later : ¬ Torn (index.drop n) read :=
            fun torn => smooth ⟨caret_end_magic.2 (Or.inr ⟨n, whole, torn.1⟩), torn.2⟩
          rw [consume_append read whole closed]
          dsimp only
          rw [List.drop_append_of_le_length (consume_le whole)]
          refine ih _ ?_ later rfl
          rw [← size, List.length_drop, List.length_append]
          simp only [discardMarkerMagic, List.length_cons, List.length_nil]
          omega
      · by_cases like : b :: rest <+: discardMarkerMagic
        · rw [scan_short magic like]
          rfl
        · have still : ¬ discardMarkerMagic <+: b :: (rest ++ read) := by
            intro longer
            rcases List.prefix_or_prefix_of_prefix longer (List.prefix_append (b :: rest) read) with first | second
            · exact magic first
            · exact like second
          have longer : ¬ b :: (rest ++ read) <+: discardMarkerMagic :=
            fun within => like ((List.prefix_append (b :: rest) read).trans within)
          have later : ¬ Torn rest read := fun torn => smooth ⟨(caret_end_byte magic).2 torn.1, torn.2⟩
          rw [List.cons_append, scan_plain magic like, scan_plain still longer,
            ih rest.length (by rw [← size]; exact Nat.lt_succ_self _) later rfl]
          rfl

end Splitting

section Reads

theorem scan_text (text : 0xFF ∉ data) : scan data = ([], data) := by
  induction data with
  | nil => rfl
  | cons b rest ih =>
    rw [scan_other (fun same => text (by simp [same])), ih (fun member => text (List.mem_cons_of_mem b member))]
    rfl

theorem filter_eq (nonempty : data ≠ []) : filter held data = scan (held ++ data) := by
  rw [filter, if_neg nonempty]
  split
  · rfl
  · rename_i text
    exact (scan_text text).symm

theorem filter_follows : Follows filter scan Torn where
  state before read := by
    by_cases nothing : read = []
    · simp [nothing, filter]
    · rw [filter_eq nothing]
      by_cases torn : Torn before read
      · obtain ⟨x, rest, rfl⟩ := List.exists_cons_of_ne_nil nothing
        obtain ⟨released, joined⟩ := scan_torn torn.1 torn.2
        rw [released, joined, List.nil_append, scan_second torn.2]
        rfl
      · rw [scan_smooth torn]
  smooth before read smooth := by
    by_cases nothing : read = []
    · simp [nothing, filter]
    · rw [filter_eq nothing, scan_smooth smooth]
  longer before read torn := by
    cases read with
    | nil => exact absurd torn.2 (by simp [pairNext])
    | cons x rest =>
      obtain ⟨released, joined⟩ := scan_torn torn.1 torn.2
      rw [filter_eq (by simp), released, joined, List.nil_append, scan_second torn.2]
      simp [keep]

inductive IndexBytes : Nat → Bytes → Bytes → Prop where
  | none {rest : Bytes} : IndexBytes 0 [] rest
  | pair {k : Nat} {x : UInt8} {index rest : Bytes} (second : 0x3F ≤ x ∧ x ≤ 0x5F)
      (others : IndexBytes k index rest) : IndexBytes (k + 1) (0x5E :: x :: index) rest
  | raw {k : Nat} {b : UInt8} {index rest : Bytes} (single : ¬ (b = 0x5E ∧ pairNext (index ++ rest) = true))
      (others : IndexBytes k index rest) : IndexBytes (k + 1) (b :: index) rest

inductive Cleaned : Bytes → Bytes → Bytes → Prop where
  | magic {data : Bytes} (begun : data <+: discardMarkerMagic) : Cleaned data data []
  | index {index : Bytes} (short : ∀ front rest, index = front ++ rest → ¬ IndexBytes 4 front rest) :
      Cleaned (discardMarkerMagic ++ index) (discardMarkerMagic ++ index) []
  | marker {index rest held out : Bytes} (whole : IndexBytes 4 index rest) (later : Cleaned rest held out) :
      Cleaned (discardMarkerMagic ++ (index ++ rest)) held out
  | byte {b : UInt8} {rest held out : Bytes} (plain : ¬ discardMarkerMagic <+: b :: rest)
      (unlike : ¬ b :: rest <+: discardMarkerMagic) (later : Cleaned rest held out) :
      Cleaned (b :: rest) held (b :: out)

theorem index_of_consume (consumed : consumeMarkerIndex k data = some n) :
    IndexBytes k (data.take n) (data.drop n) := by
  induction k generalizing data n with
  | zero =>
    cases consumed
    exact .none
  | succ k ih =>
    cases data with
    | nil => cases consumed
    | cons b rest =>
      rw [consume_cons] at consumed
      split at consumed
      · rename_i pair
        obtain ⟨m, inner, rfl⟩ := Option.map_eq_some_iff.1 consumed
        obtain ⟨rfl, second⟩ := pair
        cases rest with
        | nil => simp [pairNext] at second
        | cons x rest => exact .pair (of_decide_eq_true second) (ih inner)
      · rename_i raw
        obtain ⟨m, inner, rfl⟩ := Option.map_eq_some_iff.1 consumed
        refine .raw ?_ (ih inner)
        rwa [List.drop_succ_cons, List.take_append_drop]

theorem consume_of_index (whole : IndexBytes k index rest) :
    consumeMarkerIndex k (index ++ rest) = some index.length := by
  induction whole with
  | none => rfl
  | @pair k x index rest second others ih =>
    rw [List.cons_append, List.cons_append, consume_cons, if_pos ⟨rfl, decide_eq_true second⟩, List.tail_cons, ih]
    rfl
  | raw single others ih =>
    rw [List.cons_append, consume_cons, if_neg single, ih]
    rfl

theorem scan_cleaned (data : Bytes) : Cleaned data (scan data).1 (scan data).2 := by
  induction size : data.length using Nat.strongRecOn generalizing data with
  | ind k ih =>
    cases data with
    | nil => exact .magic (List.nil_prefix)
    | cons b rest =>
      by_cases magic : discardMarkerMagic <+: b :: rest
      · obtain ⟨index, same⟩ := magic
        rw [← same] at size ⊢
        rw [scan_marker]
        cases consumed : consumeMarkerIndex 4 index with
        | none =>
          refine .index fun front rest split whole => ?_
          rw [split, consume_of_index whole] at consumed
          cases consumed
        | some n =>
          have later := ih (index.drop n).length (by
            rw [← size, List.length_drop, List.length_append]
            simp only [discardMarkerMagic, List.length_cons, List.length_nil]
            omega) (index.drop n) rfl
          have cleaned := Cleaned.marker (index_of_consume consumed) later
          rwa [List.take_append_drop] at cleaned
      · by_cases like : b :: rest <+: discardMarkerMagic
        · rw [scan_short magic like]
          exact .magic like
        · rw [scan_plain magic like]
          exact .byte magic like (ih rest.length (by rw [← size]; exact Nat.lt_succ_self _) rest rfl)

/-- The output does not depend on the reads exactly when none of them starts between the
    two bytes of a pair that ends a marker. -/
theorem split_reads_iff (reads : List Bytes) :
    Cleaned reads.flatten (filter [] reads.flatten).1 (filter [] reads.flatten).2 ∧
      (feedAll filter [] reads = filter [] reads.flatten ↔
        ∀ front read back, reads = front ++ read :: back → ¬ Torn front.flatten read) := by
  have whole : filter [] reads.flatten = scan reads.flatten := by
    by_cases nothing : reads.flatten = []
    · rw [nothing]
      rfl
    · exact filter_eq nothing
  rw [whole]
  exact ⟨scan_cleaned _, feed_all_eq_iff filter_follows scan_nil reads⟩

/-- A marker whose last index byte is echoed as ^@, with the read ending behind the caret:
    the second byte of the pair appears in the output. -/
theorem torn_marker_leaks :
    feedAll filter [] [[0xFF, 0xC0, 0xC1, 0xFF, 0x20, 0x20, 0x20, 0x5E], [0x40]] = ([], [0x40]) ∧
      filter [] [0xFF, 0xC0, 0xC1, 0xFF, 0x20, 0x20, 0x20, 0x5E, 0x40] = ([], []) := by
  decide

end Reads

end DiscardMarkers
