import RootShell.ByteText
import Mathlib.Logic.Function.Basic

/-!
The recorder's queue and its writer goroutine: operations are accepted into a bounded
queue, taken from it in batches and applied to the files of the session's directory.
Events are kept as values; their JSON lines come from an arbitrary encoder.
-/
namespace RecorderQueue
open ByteLines

def recorderQueueLimit : Nat := 2 * 2 ^ 20

def recorderMaxQueuedOps : Nat := 8192

def recorderMaxOpenFiles : Nat := 64

def indexFileName : Bytes := text "index.jsonl"

def packetsFileName : Bytes := text "packets.bin"

def keylogFileName : Bytes := text "keylog.txt"

inductive StopKind where
  | stop
  | segmentEnd
  deriving DecidableEq

structure EvTxEnd where
  id : Bytes
  reqBytes : Nat
  resBytes : Nat
  reqBodyFile : Bytes
  resBodyFile : Bytes
  reqTruncated : Bool
  resTruncated : Bool
  error : Bytes
  ws : Bool
  note : Bytes
  deriving DecidableEq

inductive Event where
  | segment (seg : Bytes)
  | stop (kind : StopKind) (reason : Bytes)
  | txStart (id : Bytes)
  | txResponse (id : Bytes)
  | txEnd (ev : EvTxEnd)
  | other (line : Bytes)
  deriving DecidableEq

inductive Piece where
  | raw (data : Bytes) (some : data ≠ [])
  | event (ev : Event)
  deriving DecidableEq

/-- A copy of a slice as append makes it: an empty one is nil. -/
def rawPiece (data : Bytes) : Option Piece := if some : data ≠ [] then Option.some (.raw data some) else none

inductive RecOp where
  | append (path : Bytes) (data : Option Piece) (droppable : Bool)
  | close (path : Bytes)
  deriving DecidableEq

structure Attempt where
  opens : Bool
  short : Option Nat
  deriving DecidableEq

def Attempt.succeeds : Attempt := ⟨true, none⟩

structure FileTable where
  files : List Bytes
  order : List Bytes

inductive Writer where
  | waiting
  | working (ops : List RecOp) (closing : Bool)
  | draining (ops : List RecOp)
  | done

structure Spool where
  maxSession : Int
  queue : List RecOp
  qBytes : Nat
  closing : Bool
  active : Bool
  halted : Bool
  written : Nat
  dropped : Nat
  table : FileTable
  disk : Bytes → List Piece
  writer : Writer

section Files

/-- Drops the oldest names up to the first open file that is not the index. -/
def evict : List Bytes → List Bytes → FileTable
  | [], files => ⟨files, []⟩
  | victim :: order, files =>
    if victim ∈ files ∧ victim ≠ indexFileName then ⟨files.erase victim, order⟩ else evict order files

def FileTable.makeRoom (t : FileTable) : FileTable :=
  if recorderMaxOpenFiles ≤ t.files.length then evict t.order t.files else t

def FileTable.add (t : FileTable) (rel : Bytes) : FileTable :=
  let files := rel :: t.files
  let order := t.order ++ [rel]
  ⟨files, if 4 * recorderMaxOpenFiles < order.length then order.filter (· ∈ files) else order⟩

def FileTable.file (t : FileTable) (rel : Bytes) (opens : Bool) : FileTable × Bool :=
  if rel ∈ t.files then (t, true)
  else if opens then (t.makeRoom.add rel, true) else (t.makeRoom, false)

end Files

section Writing
variable (m : Event → Bytes)

def Piece.bytes : Piece → Bytes
  | .raw data _ => data
  | .event ev => m ev ++ [10]

def RecOp.path : RecOp → Bytes
  | .append path _ _ => path
  | .close path => path

def RecOp.data : RecOp → Option Piece
  | .append _ data _ => data
  | .close _ => none

def RecOp.droppable : RecOp → Bool
  | .append _ _ droppable => droppable
  | .close _ => false

def RecOp.size (op : RecOp) : Nat := ((op.data.map (Piece.bytes m)).getD []).length

def Spool.enqueue (s : Spool) (op : RecOp) : Spool :=
  if s.closing ∨ (op.data.isSome ∧ s.active = false ∧ op.path ≠ indexFileName) then s
  else if recorderMaxQueuedOps ≤ s.queue.length ∨
      (op.droppable ∧ recorderQueueLimit < s.qBytes + op.size m) then
    { s with dropped := s.dropped + op.size m }
  else
    { s with
      queue := s.queue ++ [op]
      qBytes := if op.droppable then s.qBytes + op.size m else s.qBytes }

def Spool.event (s : Spool) (ev : Event) : Spool := s.enqueue m (.append indexFileName (some (.event ev)) false)

def Spool.appendFile (s : Spool) (rel data : Bytes) (droppable : Bool) : Spool :=
  s.enqueue m (.append rel (rawPiece data) droppable)

def Spool.closeFile (s : Spool) (rel : Bytes) : Spool := s.enqueue m (.close rel)

def Spool.put (s : Spool) (rel : Bytes) (piece : Piece) (attempt : Attempt) : Spool × Bool :=
  let (table, opened) := s.table.file rel attempt.opens
  if opened then
    match attempt.short with
    | none => ({ s with table := table, disk := Function.update s.disk rel (s.disk rel ++ [piece]) }, true)
    | some n =>
      let stored := (rawPiece ((piece.bytes m).take n)).toList
      ({ s with table := table, disk := Function.update s.disk rel (s.disk rel ++ stored) }, false)
  else ({ s with table := table }, false)

def stopPiece (reason : Bytes) : Piece := .event (.stop .stop reason)

def Spool.autoStop (s : Spool) (reason : Bytes) (attempt : Attempt) : Spool :=
  if s.halted then s
  else (Spool.put m { s with halted := true, active := false } indexFileName (.event (.stop .stop reason)) attempt).1

def Spool.counted (s : Spool) (n : Nat) (stop : Attempt) : Spool :=
  let next : Spool := { s with written := s.written + n }
  if 0 < s.maxSession ∧ s.maxSession < next.written then next.autoStop m (text "sizeLimit") stop else next

/-- Applies one operation; `attempt` is its own write and `stop` that of the event of an automatic stop. -/
def Spool.apply (s : Spool) (op : RecOp) (attempt stop : Attempt) : Spool :=
  match op with
  | .close path => { s with table := { s.table with files := s.table.files.erase path } }
  | .append _ none _ => s
  | .append path (some piece) _ =>
    if path ≠ indexFileName ∧ s.halted then s
    else
      let out := s.put m path piece attempt
      if out.2 then out.1.counted m (piece.bytes m).length stop else out.1.autoStop m (text "writeError") stop

/-- The writer takes the queue. A wake-up only says when it looks, so it may look at any time. -/
def Spool.take (s : Spool) : Option Spool :=
  match s.writer with
  | .waiting => some { s with queue := [], qBytes := 0, writer := .working s.queue s.closing }
  | _ => none

def Spool.work (s : Spool) (attempt stop : Attempt) : Option Spool :=
  match s.writer with
  | .working (op :: ops) closing => some { s.apply m op attempt stop with writer := .working ops closing }
  | .draining (op :: ops) => some { s.apply m op attempt stop with writer := .draining ops }
  | _ => none

def Spool.rest (s : Spool) : Option Spool :=
  match s.writer with
  | .working [] false => some { s with writer := .waiting }
  | .working [] true => some { s with queue := [], writer := .draining s.queue }
  | .draining [] => some { s with table := { s.table with files := [] }, writer := .done }
  | _ => none

end Writing

section Flow
variable {m : Event → Bytes} {s t : Spool} {op : RecOp} {p : Bytes}

def Writer.ops : Writer → List RecOp
  | .waiting => []
  | .working ops _ => ops
  | .draining ops => ops
  | .done => []

def Spool.ahead (s : Spool) : List RecOp := s.writer.ops ++ s.queue

def pieceFor (p : Bytes) (op : RecOp) : Option Piece := if op.path = p then op.data else none

def pieces (p : Bytes) (ops : List RecOp) : List Piece := ops.filterMap (pieceFor p)

def Spool.flow (s : Spool) (p : Bytes) : List Piece := s.disk p ++ pieces p s.ahead

def Spool.Accepts (m : Event → Bytes) (s : Spool) (op : RecOp) : Prop :=
  ¬ (s.closing ∨ (op.data.isSome ∧ s.active = false ∧ op.path ≠ indexFileName)) ∧
    ¬ (recorderMaxQueuedOps ≤ s.queue.length ∨ (op.droppable ∧ recorderQueueLimit < s.qBytes + op.size m))

instance (m : Event → Bytes) (s : Spool) (op : RecOp) : Decidable (s.Accepts m op) := by
  unfold Spool.Accepts
  infer_instance

structure SameWriter (s t : Spool) : Prop where
  maxSession : t.maxSession = s.maxSession
  disk : t.disk = s.disk
  writer : t.writer = s.writer
  closing : t.closing = s.closing
  halted : t.halted = s.halted
  active : t.active = s.active

theorem enqueue_same (m : Event → Bytes) (s : Spool) (op : RecOp) : SameWriter s (s.enqueue m op) := by
  unfold Spool.enqueue
  split
  · exact ⟨rfl, rfl, rfl, rfl, rfl, rfl⟩
  · split <;> exact ⟨rfl, rfl, rfl, rfl, rfl, rfl⟩

theorem enqueue_queue (m : Event → Bytes) (s : Spool) (op : RecOp) :
    (s.enqueue m op).queue = s.queue ++ if s.Accepts m op then [op] else [] := by
  unfold Spool.enqueue Spool.Accepts
  split
  · rename_i stopped
    simp [stopped]
  · rename_i running
    split
    · rename_i saturated
      simp only [saturated, not_true_eq_false, and_false, ↓reduceIte, List.append_nil]
    · rename_i room
      simp only [running, room, not_false_eq_true, and_self, ↓reduceIte]

theorem enqueue_flow (m : Event → Bytes) (s : Spool) (op : RecOp) (p : Bytes) :
    (s.enqueue m op).flow p = s.flow p ++ if s.Accepts m op then (pieceFor p op).toList else [] := by
  have same := enqueue_same m s op
  simp only [Spool.flow, Spool.ahead, same.disk, same.writer, enqueue_queue]
  split
  · cases found : pieceFor p op with
    | none => simp [pieces, found]
    | some piece => simp [pieces, found]
  · simp

theorem take_flow (taken : s.take = some t) : t.flow p = s.flow p := by
  unfold Spool.take at taken
  split at taken
  · rename_i waiting
    cases taken
    simp [Spool.flow, Spool.ahead, waiting, Writer.ops]
  · cases taken

theorem rest_flow (rested : s.rest = some t) : t.flow p = s.flow p := by
  unfold Spool.rest at rested
  split at rested
  case h_1 idle | h_2 idle | h_3 idle =>
    cases rested
    simp [Spool.flow, Spool.ahead, idle, Writer.ops]
  case h_4 => cases rested

structure SameQueue (s t : Spool) : Prop where
  queue : t.queue = s.queue
  closing : t.closing = s.closing
  writer : t.writer = s.writer

theorem put_same (m : Event → Bytes) (s : Spool) (rel : Bytes) (piece : Piece) (attempt : Attempt) :
    SameQueue s (s.put m rel piece attempt).1 := by
  unfold Spool.put
  dsimp only
  split
  · split <;> exact ⟨rfl, rfl, rfl⟩
  · exact ⟨rfl, rfl, rfl⟩

structure Undisturbed (s t : Spool) : Prop where
  maxSession : t.maxSession = s.maxSession
  queue : t.queue = s.queue
  qBytes : t.qBytes = s.qBytes
  closing : t.closing = s.closing
  active : t.active = s.active
  halted : t.halted = s.halted

theorem put_undisturbed (m : Event → Bytes) (s : Spool) (rel : Bytes) (piece : Piece) (attempt : Attempt) :
    Undisturbed s (s.put m rel piece attempt).1 := by
  unfold Spool.put
  dsimp only
  split
  · split <;> exact ⟨rfl, rfl, rfl, rfl, rfl, rfl⟩
  · exact ⟨rfl, rfl, rfl, rfl, rfl, rfl⟩

theorem put_written (m : Event → Bytes) (s : Spool) (rel : Bytes) (piece : Piece) (attempt : Attempt) :
    (s.put m rel piece attempt).1.written = s.written := by
  unfold Spool.put
  dsimp only
  split
  · split <;> rfl
  · rfl

theorem auto_stop_same (m : Event → Bytes) (s : Spool) (reason : Bytes) (attempt : Attempt) :
    SameQueue s (s.autoStop m reason attempt) := by
  unfold Spool.autoStop
  split
  · exact ⟨rfl, rfl, rfl⟩
  · obtain ⟨queue, closing, writer⟩ := put_same m { s with halted := true, active := false } indexFileName
      (.event (.stop .stop reason)) attempt
    exact ⟨queue, closing, writer⟩

theorem SameQueue.trans {r : Spool} (first : SameQueue r s) (second : SameQueue s t) : SameQueue r t :=
  ⟨second.queue.trans first.queue, second.closing.trans first.closing, second.writer.trans first.writer⟩

theorem counted_same (m : Event → Bytes) (s : Spool) (n : Nat) (stop : Attempt) :
    SameQueue s (s.counted m n stop) := by
  unfold Spool.counted
  dsimp only
  split
  · obtain ⟨queue, closing, writer⟩ := auto_stop_same m { s with written := s.written + n } (text "sizeLimit") stop
    exact ⟨queue, closing, writer⟩
  · exact ⟨rfl, rfl, rfl⟩

theorem apply_same (m : Event → Bytes) (s : Spool) (op : RecOp) (attempt stop : Attempt) :
    SameQueue s (s.apply m op attempt stop) := by
  unfold Spool.apply
  split
  · exact ⟨rfl, rfl, rfl⟩
  · exact ⟨rfl, rfl, rfl⟩
  · split
    · exact ⟨rfl, rfl, rfl⟩
    · dsimp only
      split
      · exact (put_same m s _ _ attempt).trans (counted_same m _ _ stop)
      · exact (put_same m s _ _ attempt).trans (auto_stop_same m _ _ stop)

inductive Flags (s t : Spool) : Prop where
  | same (active : t.active = s.active) (halted : t.halted = s.halted) : Flags s t
  | stopped (running : s.halted = false) (active : t.active = false) (halted : t.halted = true) : Flags s t

theorem auto_stop_flags (m : Event → Bytes) (s : Spool) (reason : Bytes) (attempt : Attempt) :
    Flags s (s.autoStop m reason attempt) := by
  unfold Spool.autoStop
  split
  · exact .same rfl rfl
  · rename_i running
    have kept := put_undisturbed m { s with halted := true, active := false } indexFileName
      (.event (.stop .stop reason)) attempt
    exact .stopped (Bool.eq_false_iff.2 running) kept.active kept.halted

theorem counted_flags (m : Event → Bytes) (s : Spool) (n : Nat) (stop : Attempt) : Flags s (s.counted m n stop) := by
  unfold Spool.counted
  dsimp only
  split
  · cases auto_stop_flags m { s with written := s.written + n } (text "sizeLimit") stop with
    | same active halted => exact .same active halted
    | stopped running active halted => exact .stopped running active halted
  · exact .same rfl rfl

theorem Flags.after {r : Spool} (kept : Undisturbed r s) (flags : Flags s t) : Flags r t := by
  cases flags with
  | same active halted => exact .same (active.trans kept.active) (halted.trans kept.halted)
  | stopped running active halted => exact .stopped (kept.halted.symm.trans running) active halted

theorem apply_flags (m : Event → Bytes) (s : Spool) (op : RecOp) (attempt stop : Attempt) :
    Flags s (s.apply m op attempt stop) := by
  unfold Spool.apply
  split
  · exact .same rfl rfl
  · exact .same rfl rfl
  · rename_i path piece droppable
    have kept := put_undisturbed m s path piece attempt
    split
    · exact .same rfl rfl
    · dsimp only
      split
      · exact (counted_flags m _ _ stop).after kept
      · exact (auto_stop_flags m _ _ stop).after kept

theorem put_succeeds (m : Event → Bytes) (s : Spool) (rel : Bytes) (piece : Piece) :
    (s.put m rel piece .succeeds).2 = true ∧
      (s.put m rel piece .succeeds).1.disk = Function.update s.disk rel (s.disk rel ++ [piece]) := by
  have opened : (s.table.file rel true).2 = true := by
    unfold FileTable.file
    split <;> rfl
  simp [Spool.put, Attempt.succeeds, opened]

theorem auto_stop_apart (m : Event → Bytes) (s : Spool) (reason : Bytes) (other : p ≠ indexFileName) :
    (s.autoStop m reason .succeeds).disk p = s.disk p := by
  unfold Spool.autoStop
  split
  · rfl
  · rw [(put_succeeds m _ _ _).2, Function.update_of_ne other]

theorem auto_stop_halted (m : Event → Bytes) (halted : s.halted = true) (reason : Bytes) (attempt : Attempt) :
    s.autoStop m reason attempt = s := by
  unfold Spool.autoStop
  rw [if_pos halted]

theorem counted_apart (m : Event → Bytes) (s : Spool) (n : Nat) (other : p ≠ indexFileName) :
    (s.counted m n .succeeds).disk p = s.disk p := by
  unfold Spool.counted
  dsimp only
  split
  · exact auto_stop_apart m _ _ other
  · rfl

theorem apply_apart (m : Event → Bytes) (s : Spool) (op : RecOp) (other : p ≠ indexFileName)
    (kept : pieceFor p op ≠ none → s.halted = false) :
    (s.apply m op .succeeds .succeeds).disk p = s.disk p ++ (pieceFor p op).toList := by
  unfold Spool.apply
  split
  · simp [pieceFor, RecOp.data]
  · simp [pieceFor, RecOp.data]
  · rename_i path piece droppable
    by_cases here : path = p
    · subst here
      have running := kept (by simp [pieceFor, RecOp.path, RecOp.data])
      have wrote := put_succeeds m s path piece
      simp [running, wrote.1, counted_apart m _ _ other, wrote.2, pieceFor, RecOp.path, RecOp.data]
    · have wrote := put_succeeds m s path piece
      have away : p ≠ path := fun same => here same.symm
      split
      · simp [pieceFor, RecOp.path, here]
      · simp [wrote.1, counted_apart m _ _ other, wrote.2, Function.update_of_ne away, pieceFor, RecOp.path, here]

section Counting
variable (q : Piece → Bool) (quiet : ∀ kind reason, q (.event (.stop kind reason)) = false)
include quiet

theorem auto_stop_count (s : Spool) (reason : Bytes) :
    ((s.autoStop m reason .succeeds).disk indexFileName).countP q = (s.disk indexFileName).countP q := by
  unfold Spool.autoStop
  split
  · rfl
  · rw [(put_succeeds m _ _ _).2, Function.update_self]
    simp [List.countP_append, quiet]

theorem counted_count (s : Spool) (n : Nat) :
    ((s.counted m n .succeeds).disk indexFileName).countP q = (s.disk indexFileName).countP q := by
  unfold Spool.counted
  dsimp only
  split
  · exact auto_stop_count q quiet _ _
  · rfl

theorem apply_count (s : Spool) (op : RecOp) :
    ((s.apply m op .succeeds .succeeds).disk indexFileName).countP q =
      (s.disk indexFileName).countP q + (pieceFor indexFileName op).toList.countP q := by
  unfold Spool.apply
  split
  · simp [pieceFor, RecOp.data]
  · simp [pieceFor, RecOp.data]
  · rename_i path piece droppable
    have wrote := put_succeeds m s path piece
    by_cases here : path = indexFileName
    · subst here
      simp [wrote.1, counted_count q quiet, wrote.2, pieceFor, RecOp.path, RecOp.data, List.countP_append]
    · have away : indexFileName ≠ path := fun same => here same.symm
      split
      · simp [pieceFor, RecOp.path, here]
      · simp [wrote.1, counted_count q quiet, wrote.2, Function.update_of_ne away, pieceFor, RecOp.path, here]

end Counting

theorem work_cases {attempt stop : Attempt} (worked : s.work m attempt stop = some t) :
    ∃ op ops, s.ahead = op :: ops ∧ t.ahead = ops ∧ t.disk = (s.apply m op attempt stop).disk ∧
      t.closing = s.closing ∧ t.queue = s.queue ∧ t.halted = (s.apply m op attempt stop).halted := by
  unfold Spool.work at worked
  split at worked
  case h_1 op ops closing busy | h_2 op ops busy =>
    cases worked
    have same := apply_same m s op attempt stop
    exact ⟨op, ops ++ s.queue, by simp [Spool.ahead, busy, Writer.ops],
      by simp [Spool.ahead, Writer.ops, same.queue], rfl, same.closing, same.queue, rfl⟩
  case h_3 => cases worked

theorem work_flags {attempt stop : Attempt} (worked : s.work m attempt stop = some t) : Flags s t := by
  unfold Spool.work at worked
  split at worked
  case h_1 op ops closing busy | h_2 op ops busy =>
    cases worked
    cases apply_flags m s op attempt stop with
    | same active halted => exact .same active halted
    | stopped running active halted => exact .stopped running active halted
  case h_3 => cases worked

theorem take_flags (taken : s.take = some t) : SameWriter { s with writer := t.writer } t := by
  unfold Spool.take at taken
  split at taken
  · cases taken
    exact ⟨rfl, rfl, rfl, rfl, rfl, rfl⟩
  · cases taken

theorem rest_flags (rested : s.rest = some t) : SameWriter { s with writer := t.writer } t := by
  unfold Spool.rest at rested
  split at rested
  case h_1 | h_2 | h_3 =>
    cases rested
    exact ⟨rfl, rfl, rfl, rfl, rfl, rfl⟩
  case h_4 => cases rested

theorem work_flow_apart (worked : s.work m .succeeds .succeeds = some t) (other : p ≠ indexFileName)
    (kept : ∀ op ops, s.ahead = op :: ops → pieceFor p op ≠ none → s.halted = false) : t.flow p = s.flow p := by
  obtain ⟨op, ops, front, left, disk, -, -⟩ := work_cases worked
  rw [Spool.flow, Spool.flow, left, front, disk, apply_apart m s op other (kept op ops front)]
  cases found : pieceFor p op with
  | none => simp [pieces, found]
  | some piece => simp [pieces, found]

theorem work_flow_count (worked : s.work m .succeeds .succeeds = some t) (q : Piece → Bool)
    (quiet : ∀ kind reason, q (.event (.stop kind reason)) = false) :
    (t.flow indexFileName).countP q = (s.flow indexFileName).countP q := by
  obtain ⟨op, ops, front, left, disk, -, -⟩ := work_cases worked
  rw [Spool.flow, Spool.flow, left, front, disk, List.countP_append, List.countP_append,
    apply_count q quiet s op]
  cases found : pieceFor indexFileName op with
  | none => simp [pieces, found]
  | some piece =>
    simp only [pieces, Option.toList_some, List.filterMap_cons, found, List.countP_cons, List.countP_nil]
    omega

end Flow

end RecorderQueue
