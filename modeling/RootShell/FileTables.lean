import RootShell.RecorderSystem

/-!
The writer's file table over any sequence of operations: how many files are open, that the
index stays open, and what ends up in each file.
-/
namespace FileTables
open ByteLines RecorderQueue RecorderSystem

section Tables
variable {t : FileTable} {files order : List Bytes} {rel : Bytes}

structure Tracked (t : FileTable) : Prop where
  nodup : t.files.Nodup
  ordered : ∀ f ∈ t.files, f ≠ indexFileName → f ∈ t.order
  bounded : t.files.length ≤ recorderMaxOpenFiles

theorem other_file (nodup : files.Nodup) (several : 2 ≤ files.length) : ∃ f ∈ files, f ≠ indexFileName := by
  match files, several with
  | f :: g :: rest, _ =>
    by_cases index : f = indexFileName
    · have apart : f ≠ g := fun same => (List.nodup_cons.1 nodup).1 (same ▸ List.mem_cons_self)
      exact ⟨g, by simp, fun same => apart (index.trans same.symm)⟩
    · exact ⟨f, by simp, index⟩

theorem evict_victim (nodup : files.Nodup) (ordered : ∀ f ∈ files, f ≠ indexFileName → f ∈ order)
    (some : ∃ f ∈ files, f ≠ indexFileName) :
    ∃ victim ∈ files, victim ≠ indexFileName ∧ (evict order files).files = files.erase victim ∧
      ∀ f ∈ files.erase victim, f ≠ indexFileName → f ∈ (evict order files).order := by
  induction order with
  | nil =>
    obtain ⟨f, member, other⟩ := some
    cases ordered f member other
  | cons name order ih =>
    unfold evict
    split
    · rename_i victim
      refine ⟨name, victim.1, victim.2, rfl, fun f kept other => ?_⟩
      obtain ⟨apart, member⟩ := nodup.mem_erase_iff.1 kept
      exact List.mem_of_ne_of_mem apart (ordered f member other)
    · rename_i spared
      refine ih fun f member other => ?_
      have apart : f ≠ name := fun same => spared (same ▸ ⟨member, other⟩)
      exact List.mem_of_ne_of_mem apart (ordered f member other)

theorem makeRoom_tracked (tracked : Tracked t) :
    Tracked t.makeRoom ∧ t.makeRoom.files.length < recorderMaxOpenFiles ∧
      (∀ f ∈ t.makeRoom.files, f ∈ t.files) ∧ (indexFileName ∈ t.files → indexFileName ∈ t.makeRoom.files) := by
  unfold FileTable.makeRoom
  split
  · rename_i full
    have several : 2 ≤ t.files.length := le_trans (by decide) full
    obtain ⟨victim, member, other, left, ordered⟩ :=
      evict_victim tracked.nodup tracked.ordered (other_file tracked.nodup several)
    have shorter := List.length_erase_of_mem member
    have bounded := tracked.bounded
    rw [left]
    refine ⟨⟨?_, ?_, ?_⟩, by omega, fun f kept => List.mem_of_mem_erase kept, fun present => ?_⟩
    · rw [left]
      exact tracked.nodup.erase victim
    · rw [left]
      exact ordered
    · rw [left]
      omega
    · exact (List.mem_erase_of_ne other.symm).2 present
  · rename_i room
    exact ⟨tracked, Nat.lt_of_not_le room, fun f kept => kept, id⟩

theorem add_tracked (tracked : Tracked t) (fresh : rel ∉ t.files) (room : t.files.length < recorderMaxOpenFiles) :
    Tracked (t.add rel) := by
  have ordered : ∀ f ∈ rel :: t.files, f ≠ indexFileName → f ∈ t.order ++ [rel] := by
    intro f member other
    rcases List.mem_cons.1 member with rfl | before
    · simp
    · exact List.mem_append_left _ (tracked.ordered f before other)
  refine ⟨List.nodup_cons.2 ⟨fresh, tracked.nodup⟩, fun f member other => ?_, room⟩
  have listed := ordered f member other
  unfold FileTable.add
  dsimp only
  split
  · exact List.mem_filter.2 ⟨listed, decide_eq_true member⟩
  · exact listed

structure Keeps (t u : FileTable) : Prop where
  tracked : Tracked u
  index : indexFileName ∈ t.files → indexFileName ∈ u.files

theorem Keeps.refl (tracked : Tracked t) : Keeps t t := ⟨tracked, id⟩

theorem Keeps.trans {u v : FileTable} (first : Keeps t u) (second : Keeps u v) : Keeps t v :=
  ⟨second.tracked, second.index ∘ first.index⟩

theorem file_keeps (tracked : Tracked t) (rel : Bytes) (opens : Bool) : Keeps t (t.file rel opens).1 := by
  unfold FileTable.file
  split
  · exact .refl tracked
  · rename_i closed
    obtain ⟨roomy, room, before, index⟩ := makeRoom_tracked tracked
    split
    · exact ⟨add_tracked roomy (fun here => closed (before rel here)) room,
        fun present => List.mem_cons_of_mem _ (index present)⟩
    · exact ⟨roomy, index⟩

end Tables

section Bounds
variable {m : Event → Bytes} {s : Spool}

theorem put_keeps (tracked : Tracked s.table) (rel : Bytes) (piece : Piece) (attempt : Attempt) :
    Keeps s.table (s.put m rel piece attempt).1.table := by
  have kept := file_keeps tracked rel attempt.opens
  unfold Spool.put
  dsimp only
  split
  · split <;> exact kept
  · exact kept

theorem autoStop_keeps (tracked : Tracked s.table) (reason : Bytes) (attempt : Attempt) :
    Keeps s.table (s.autoStop m reason attempt).table := by
  unfold Spool.autoStop
  split
  · exact .refl tracked
  · exact put_keeps (s := { s with halted := true, active := false }) tracked _ _ _

theorem counted_keeps (tracked : Tracked s.table) (n : Nat) (stop : Attempt) :
    Keeps s.table (s.counted m n stop).table := by
  unfold Spool.counted
  dsimp only
  split
  · exact autoStop_keeps (s := { s with written := s.written + n }) tracked _ _
  · exact .refl tracked

theorem close_tracked {t : FileTable} (tracked : Tracked t) (path : Bytes) :
    Tracked { t with files := t.files.erase path } := by
  refine ⟨tracked.nodup.erase path, fun f member => tracked.ordered f (List.mem_of_mem_erase member), ?_⟩
  exact (List.length_erase_le).trans tracked.bounded

theorem apply_keeps (tracked : Tracked s.table) (op : RecOp) (attempt stop : Attempt) :
    Tracked (s.apply m op attempt stop).table ∧
      (op ≠ .close indexFileName → Keeps s.table (s.apply m op attempt stop).table) := by
  unfold Spool.apply
  split
  · rename_i path
    refine ⟨close_tracked tracked path, fun other => ⟨close_tracked tracked path, fun present => ?_⟩⟩
    have apart : indexFileName ≠ path := fun same => other (same ▸ rfl)
    exact (List.mem_erase_of_ne apart).2 present
  · exact ⟨tracked, fun _ => .refl tracked⟩
  · rename_i path piece droppable
    suffices kept : Keeps s.table _ from ⟨kept.tracked, fun _ => kept⟩
    split
    · exact .refl tracked
    · have put := put_keeps (m := m) tracked path piece attempt
      dsimp only
      split
      · exact put.trans (counted_keeps put.tracked _ _)
      · exact put.trans (autoStop_keeps put.tracked _ _)

end Bounds

section Contents
variable {m : Event → Bytes} {s : Spool} {op : RecOp} {ops : List RecOp} {p : Bytes}

def total (m : Event → Bytes) (ops : List RecOp) : Nat := ops.foldr (fun op rest => op.size m + rest) 0

def Within (m : Event → Bytes) (s : Spool) (ops : List RecOp) : Prop :=
  s.maxSession ≤ 0 ∨ total m ops = 0 ∨ s.written + total m ops ≤ s.maxSession

def applyAll (m : Event → Bytes) (s : Spool) (ops : List RecOp) : Spool :=
  ops.foldl (fun s op => s.apply m op .succeeds .succeeds) s

theorem total_nil : total m [] = 0 := rfl

theorem total_cons : total m (op :: ops) = op.size m + total m ops := rfl

theorem pieces_cons (p : Bytes) (op : RecOp) (ops : List RecOp) :
    pieces p (op :: ops) = pieces p [op] ++ pieces p ops := by
  rw [pieces, pieces, pieces, ← List.filterMap_append, List.singleton_append]

theorem pieces_singleton (p : Bytes) (op : RecOp) : pieces p [op] = (pieceFor p op).toList := by
  cases found : pieceFor p op with
  | none => simp [pieces, found]
  | some piece => simp [pieces, found]

theorem bytes_pos (m : Event → Bytes) (piece : Piece) : 0 < (piece.bytes m).length := by
  cases piece with
  | raw data some => exact List.length_pos_iff.2 some
  | event ev => simp [Piece.bytes]

def grown (s : Spool) (op : RecOp) (p : Bytes) : List Piece := s.disk p ++ (pieceFor p op).toList

theorem put_grown (m : Event → Bytes) (s : Spool) (path : Bytes) (piece : Piece) (droppable : Bool) :
    (s.put m path piece .succeeds).1.disk = grown s (.append path (some piece) droppable) := by
  ext1 p
  rw [(put_succeeds m s path piece).2]
  by_cases here : p = path
  · subst here
    simp [grown, pieceFor, RecOp.path, RecOp.data]
  · have away : path ≠ p := fun same => here same.symm
    simp [grown, pieceFor, RecOp.path, away, Function.update_of_ne here]

theorem auto_stop_running (running : s.halted = false) (reason : Bytes) :
    (s.autoStop m reason .succeeds).halted = true ∧
      (s.autoStop m reason .succeeds).disk =
        Function.update s.disk indexFileName (s.disk indexFileName ++ [stopPiece reason]) := by
  unfold Spool.autoStop
  rw [if_neg (by simp [running])]
  exact ⟨(put_undisturbed m _ _ _ _).halted, (put_succeeds m _ _ _).2⟩

theorem counted_crossing {n : Nat} (running : s.halted = false)
    (crossing : 0 < s.maxSession ∧ s.maxSession < (s.written + n : Nat)) :
    (s.counted m n .succeeds).halted = true ∧
      (s.counted m n .succeeds).disk =
        Function.update s.disk indexFileName (s.disk indexFileName ++ [stopPiece (text "sizeLimit")]) := by
  unfold Spool.counted
  dsimp only
  rw [if_pos crossing]
  exact auto_stop_running (s := { s with written := s.written + n }) running _

theorem counted_after_halt (halted : s.halted = true) (n : Nat) :
    (s.counted m n .succeeds).halted = true ∧ (s.counted m n .succeeds).disk = s.disk := by
  unfold Spool.counted
  dsimp only
  split
  · rw [auto_stop_halted m (s := { s with written := s.written + n }) halted]
    exact ⟨halted, rfl⟩
  · exact ⟨halted, rfl⟩

structure Written (m : Event → Bytes) (s t : Spool) (ops : List RecOp) : Prop where
  disk : ∀ p, t.disk p = s.disk p ++ pieces p ops
  halted : t.halted = false
  written : t.written = s.written + total m ops
  maxSession : t.maxSession = s.maxSession

theorem written_nil (running : s.halted = false) : Written m s s [] :=
  ⟨fun p => by simp [pieces], running, by simp [total], rfl⟩

theorem Written.trans {t u : Spool} (first : Written m s t [op]) (second : Written m t u ops) :
    Written m s u (op :: ops) := by
  refine ⟨fun p => ?_, second.halted, ?_, second.maxSession.trans first.maxSession⟩
  · rw [second.disk, first.disk, List.append_assoc, ← pieces_cons]
  · rw [second.written, first.written, total_cons, total_cons]
    simp only [total_nil]
    omega

theorem apply_append {path : Bytes} {piece : Piece} {droppable : Bool}
    (kept : path = indexFileName ∨ s.halted = false) :
    s.apply m (.append path (some piece) droppable) .succeeds .succeeds =
      (s.put m path piece .succeeds).1.counted m (piece.bytes m).length .succeeds := by
  have reached : ¬ (path ≠ indexFileName ∧ s.halted = true) := by
    rcases kept with index | running
    · exact fun discarded => discarded.1 index
    · simp [running]
  simp only [Spool.apply, if_neg reached, (put_succeeds m s path piece).1, ↓reduceIte]

theorem apply_fits (running : s.halted = false) (fits : Within m s [op]) :
    Written m s (s.apply m op .succeeds .succeeds) [op] := by
  cases op with
  | close path => exact ⟨fun p => by simp [Spool.apply, pieces, pieceFor, RecOp.data], running, rfl, rfl⟩
  | append path data droppable =>
    cases data with
    | none => exact ⟨fun p => by simp [Spool.apply, pieces, pieceFor, RecOp.data], running, rfl, rfl⟩
    | some piece =>
      have same := put_undisturbed m s path piece .succeeds
      have count := put_written m s path piece .succeeds
      have nonempty := bytes_pos m piece
      have size : total m [.append path (some piece) droppable] = (piece.bytes m).length := by
        simp [total, RecOp.size, RecOp.data]
      rw [Within, size] at fits
      rw [apply_append (Or.inr running), Spool.counted]
      dsimp only
      rw [if_neg (by rw [same.maxSession, count]; omega)]
      refine ⟨fun p => ?_, same.halted.trans running, by rw [size, count], same.maxSession⟩
      rw [put_grown m s path piece droppable, grown, pieces_singleton]

theorem apply_crosses (running : s.halted = false) (crossing : ¬ Within m s [op]) :
    (s.apply m op .succeeds .succeeds).halted = true ∧
      (s.apply m op .succeeds .succeeds).disk =
        Function.update (grown s op) indexFileName (grown s op indexFileName ++ [stopPiece (text "sizeLimit")]) := by
  cases op with
  | close path => exact absurd (Or.inr (Or.inl rfl)) crossing
  | append path data droppable =>
    cases data with
    | none => exact absurd (Or.inr (Or.inl rfl)) crossing
    | some piece =>
      have same := put_undisturbed m s path piece .succeeds
      have count := put_written m s path piece .succeeds
      have size : total m [.append path (some piece) droppable] = (piece.bytes m).length := by
        simp [total, RecOp.size, RecOp.data]
      rw [Within, size] at crossing
      rw [apply_append (Or.inr running), ← put_grown m s path piece droppable]
      refine counted_crossing (same.halted.trans running) ?_
      rw [same.maxSession, count]
      omega

theorem apply_after_halt (halted : s.halted = true) (m : Event → Bytes) (op : RecOp) :
    (s.apply m op .succeeds .succeeds).halted = true ∧
      (s.apply m op .succeeds .succeeds).disk indexFileName = s.disk indexFileName ++ pieces indexFileName [op] ∧
      ∀ p, p ≠ indexFileName → (s.apply m op .succeeds .succeeds).disk p = s.disk p := by
  rw [pieces_singleton]
  cases op with
  | close path => exact ⟨halted, by simp [Spool.apply, pieceFor, RecOp.data], fun p _ => rfl⟩
  | append path data droppable =>
    cases data with
    | none => exact ⟨halted, by simp [Spool.apply, pieceFor, RecOp.data], fun p _ => rfl⟩
    | some piece =>
      by_cases index : path = indexFileName
      · have same := (put_undisturbed m s path piece .succeeds).halted.trans halted
        obtain ⟨still, disk⟩ := counted_after_halt (m := m) same (piece.bytes m).length
        rw [apply_append (Or.inl index)]
        refine ⟨still, ?_, fun p other => ?_⟩
        · rw [disk, put_grown m s path piece droppable, grown]
        · rw [disk, put_grown m s path piece droppable, grown, index]
          simp [pieceFor, RecOp.path, other.symm]
      · have discarded : s.apply m (.append path (some piece) droppable) .succeeds .succeeds = s := by
          simp [Spool.apply, index, halted]
        rw [discarded]
        exact ⟨halted, by simp [pieceFor, RecOp.path, index], fun p _ => rfl⟩

theorem within_cons (running : s.halted = false) (fits : Within m s [op]) :
    Within m s (op :: ops) ↔ Within m (s.apply m op .succeeds .succeeds) ops := by
  have first := apply_fits running fits
  have size : total m [op] = op.size m := by simp [total]
  rw [Within, size] at fits
  rw [Within, Within, first.maxSession, first.written, size, total_cons]
  push_cast
  omega

theorem run_fits (running : s.halted = false) (fits : Within m s ops) : Written m s (applyAll m s ops) ops := by
  induction ops generalizing s with
  | nil => exact written_nil running
  | cons op ops ih =>
    have here : Within m s [op] := by
      rw [Within, total_cons] at fits ⊢
      simp only [total_nil]
      omega
    have first := apply_fits running here
    exact first.trans (ih first.halted ((within_cons running here).1 fits))

theorem run_after_halt (halted : s.halted = true) (m : Event → Bytes) (ops : List RecOp) :
    (applyAll m s ops).disk indexFileName = s.disk indexFileName ++ pieces indexFileName ops ∧
      ∀ p, p ≠ indexFileName → (applyAll m s ops).disk p = s.disk p := by
  induction ops generalizing s with
  | nil => exact ⟨by simp [applyAll, pieces], fun p _ => rfl⟩
  | cons op ops ih =>
    obtain ⟨still, index, apart⟩ := apply_after_halt halted m op
    obtain ⟨index', apart'⟩ := ih still
    refine ⟨?_, fun p other => (apart' p other).trans (apart p other)⟩
    refine index'.trans ?_
    rw [index, List.append_assoc, ← pieces_cons]

structure Halted (s t : Spool) (before : List RecOp) (op : RecOp) (after : List RecOp) : Prop where
  index : t.disk indexFileName = s.disk indexFileName ++ pieces indexFileName (before ++ [op]) ++
    [stopPiece (text "sizeLimit")] ++ pieces indexFileName after
  apart : ∀ p, p ≠ indexFileName → t.disk p = s.disk p ++ pieces p (before ++ [op])

theorem crossing_halts (running : s.halted = false) (crossing : ¬ Within m s [op]) :
    Halted s (applyAll m s (op :: ops)) [] op ops := by
  obtain ⟨halted, disk⟩ := apply_crosses running crossing
  obtain ⟨index, apart⟩ := run_after_halt halted m ops
  refine ⟨index.trans ?_, fun p other => (apart p other).trans ?_⟩
  · rw [disk, Function.update_self, grown, List.nil_append, pieces_singleton]
  · rw [disk, Function.update_of_ne other, grown, List.nil_append, pieces_singleton]

theorem run_crosses (running : s.halted = false) (crossing : ¬ Within m s ops) :
    ∃ before op after, ops = before ++ op :: after ∧ Within m s before ∧ ¬ Within m s (before ++ [op]) ∧
      Halted s (applyAll m s ops) before op after := by
  induction ops generalizing s with
  | nil => exact absurd (Or.inr (Or.inl rfl)) crossing
  | cons op ops ih =>
    by_cases here : Within m s [op]
    · have first := apply_fits running here
      obtain ⟨before, last, after, rfl, fits, crosses, index, apart⟩ :=
        ih first.halted (mt (within_cons running here).2 crossing)
      refine ⟨op :: before, last, after, rfl, (within_cons running here).2 fits,
        mt (within_cons running here).1 crosses, ?_, fun p other => (apart p other).trans ?_⟩
      · refine index.trans ?_
        simp only [first.disk, List.cons_append, pieces_cons _ op (before ++ [last]), List.append_assoc]
      · simp only [first.disk, List.cons_append, pieces_cons _ op (before ++ [last]), List.append_assoc]
    · exact ⟨[], op, ops, rfl, Or.inr (Or.inl rfl), here, crossing_halts running here⟩

end Contents

section Runs
variable {m : Event → Bytes} {s : Spool}

theorem run_tracked (tracked : Tracked s.table) (ops : List RecOp) : Tracked (applyAll m s ops).table := by
  induction ops generalizing s with
  | nil => exact tracked
  | cons op ops ih => exact ih (apply_keeps tracked op .succeeds .succeeds).1

/-- However the writer's operations evict, close and reopen files, few are open, the index
    is closed by its own close only, and the files get the data in order. Past the size
    limit the data of every file but the index is discarded. -/
theorem file_table_transparent (m : Event → Bytes) (s : Spool) (ops : List RecOp) (fresh : s.table = ⟨[], []⟩)
    (running : s.halted = false) :
    (applyAll m s ops).table.files.length ≤ recorderMaxOpenFiles ∧
      (∀ op, op ≠ .close indexFileName → indexFileName ∈ (applyAll m s ops).table.files →
        indexFileName ∈ ((applyAll m s ops).apply m op .succeeds .succeeds).table.files) ∧
      (Within m s ops → ∀ p, (applyAll m s ops).disk p = s.disk p ++ pieces p ops) ∧
      (¬ Within m s ops → ∃ before op after, ops = before ++ op :: after ∧ Within m s before ∧
        ¬ Within m s (before ++ [op]) ∧ Halted s (applyAll m s ops) before op after) := by
  have empty : Tracked s.table := by
    rw [fresh]
    exact ⟨List.nodup_nil, fun f member => absurd member List.not_mem_nil, Nat.zero_le _⟩
  have tracked := run_tracked (m := m) empty ops
  refine ⟨tracked.bounded, fun op other => ?_, fun fits => (run_fits running fits).disk, run_crosses running⟩
  exact ((apply_keeps tracked op .succeeds .succeeds).2 other).index

theorem new_file_table_transparent :
    (applyAll plainSession.marshal (newSpool plainSession emptyDirectory 9)
        [.append (text "a") (rawPiece (text "x")) true, .close (text "a"),
          .append (text "a") (rawPiece (text "y")) true]).disk (text "a") =
      (rawPiece (text "x")).toList ++ (rawPiece (text "y")).toList :=
  (file_table_transparent plainSession.marshal (newSpool plainSession emptyDirectory 9) _ rfl rfl).2.2.1
    (by unfold Within; decide) (text "a")

/-- Past the size limit a file does not get its data, and the index gets an event of no operation. -/
theorem data_past_limit_discarded :
    ∃ ops, (applyAll plainSession.marshal (newSpool plainSession emptyDirectory 1) ops).disk (text "a") ≠
        pieces (text "a") ops ∧
      (applyAll plainSession.marshal (newSpool plainSession emptyDirectory 1) ops).disk indexFileName ≠
        pieces indexFileName ops :=
  ⟨[.append (text "a") (rawPiece (text "xy")) true, .append (text "a") (rawPiece (text "z")) true],
    by decide, by decide⟩

end Runs

end FileTables
