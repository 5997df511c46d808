import RootShell.RecorderQueue
import RootShell.Interleaving

/-!
The recorder as a system of threads: transactions with their body sinks, the writer
goroutine, one call of close, and the rest of the tunnel, which records packets, key
log lines, WebSocket frames and events of its own. Each action is one section under a
lock or one access to an atomic field.
-/
namespace RecorderSystem
open ByteLines ByteText RecorderQueue Interleaving

inductive Ext where
  | req
  | res
  deriving DecidableEq

def Ext.name : Ext → Bytes
  | .req => text "req"
  | .res => text "res"

structure Session where
  nonce : Bytes
  marshal : Event → Bytes

def Session.txID (e : Session) (i : Nat) : Bytes := e.nonce ++ text "-" ++ itoa (i + 1)

def Session.rel (e : Session) (i : Nat) (ext : Ext) : Bytes :=
  text "bodies/" ++ e.txID i ++ text "." ++ ext.name

structure BodySink where
  rel : Bytes
  max : Int
  stored : Nat
  total : Nat
  truncated : Bool
  deriving DecidableEq

structure SinkReport where
  file : Bytes
  stored : Nat
  total : Nat
  truncated : Bool
  deriving DecidableEq

def BodySink.write (k : BodySink) (p : Bytes) : BodySink × Option Bytes :=
  let seen : BodySink := { k with total := k.total + p.length }
  let room := k.max - k.stored
  if room ≤ 0 then (if p ≠ [] then { seen with truncated := true } else seen, none)
  else
    let n : Int := if room < p.length then room else p.length
    let cut : BodySink := if room < p.length then { seen with truncated := true } else seen
    ({ cut with stored := cut.stored + n.toNat }, some (p.take n.toNat))

def BodySink.file (k : BodySink) : Bytes := if 0 < k.stored then k.rel else []

def BodySink.finish (k : BodySink) : SinkReport := ⟨k.file, k.stored, k.total, k.truncated⟩

structure PendingTx where
  req : Option Nat
  res : Option Nat
  ws : Bool
  deriving DecidableEq

def PendingTx.setSink (t : PendingTx) (a : Nat) : Ext → PendingTx
  | .req => { t with req := some a }
  | .res => { t with res := some a }

inductive TxPhase where
  | running
  | ending (ev : EvTxEnd)
  | finished
  deriving DecidableEq

structure Tx where
  req : Option Nat
  res : Option Nat
  started : Bool
  phase : TxPhase
  deriving DecidableEq

def Tx.sink (tx : Tx) : Ext → Option Nat
  | .req => tx.req
  | .res => tx.res

def Tx.setSink (tx : Tx) (a : Nat) : Ext → Tx
  | .req => { tx with req := some a }
  | .res => { tx with res := some a }

inductive Closer where
  | idle
  | sweeping (kind : StopKind) (reason : Bytes) (todo : List (Bytes × PendingTx))
  | telling (kind : StopKind) (reason : Bytes) (todo : List (Bytes × PendingTx)) (ev : EvTxEnd)
  | announcing (kind : StopKind) (reason : Bytes)
  | deactivating
  | raising
  | closed

structure Recorder where
  spool : Spool
  maxBody : Int
  txs : List Tx
  sinks : List BodySink
  txMu : Bool
  pending : List (Bytes × PendingTx)
  swept : List Bytes
  closer : Closer

inductive Other where
  | packet (record : Bytes)
  | keylog (line : Bytes)
  | frame (id line : Bytes)
  | event (line : Bytes)

def Other.op : Other → RecOp
  | .packet record => .append packetsFileName (rawPiece record) true
  | .keylog line => .append keylogFileName (rawPiece line) false
  | .frame id line => .append (text "ws/" ++ id ++ text ".jsonl") (rawPiece line) true
  | .event line => .append indexFileName (some (.event (.other line))) false

inductive Action where
  | configure (maxBody maxSession : Int)
  | nextTxID
  | newBodySink (i : Nat) (ext : Ext)
  | markWebSocket (i : Nat)
  | txStart (i : Nat)
  | txResponse (i : Nat)
  | write (a : Nat) (p : Bytes)
  | finish (a : Nat)
  | claim (i : Nat) (ev : EvTxEnd)
  | report (i : Nat)
  | other (o : Other)
  | sweep (kind : StopKind) (reason : Bytes)
  | snapshot (j : Nat)
  | tell
  | check
  | announce
  | deactivate
  | raise
  | take
  | work (attempt stop : Attempt)
  | rest

section Steps

def openTx (pending : List (Bytes × PendingTx)) (id : Bytes) (f : PendingTx → PendingTx) : List (Bytes × PendingTx) :=
  if id ∈ pending.map Prod.fst then pending.map fun t => if t.1 = id then (t.1, f t.2) else t
  else pending ++ [(id, f ⟨none, none, false⟩)]

def Recorder.running (s : Recorder) (i : Nat) : Option Tx :=
  s.txs[i]?.filter fun tx => tx.phase = .running

def Recorder.snapshot (s : Recorder) (a : Option Nat) : Bytes × Nat :=
  match a.bind (s.sinks[·]?) with
  | some k => (k.file, k.total)
  | none => ([], 0)

def Recorder.sweptEvent (s : Recorder) (id : Bytes) (t : PendingTx) : EvTxEnd where
  id := id
  reqBytes := (s.snapshot t.req).2
  resBytes := (s.snapshot t.res).2
  reqBodyFile := (s.snapshot t.req).1
  resBodyFile := (s.snapshot t.res).1
  reqTruncated := true
  resTruncated := true
  error := []
  ws := t.ws
  note := text "recording stopped before this finished"

def Recorder.addSink (e : Session) (s : Recorder) (i : Nat) (ext : Ext) (tx : Tx) : Recorder :=
  { s with
    sinks := s.sinks ++ [⟨e.rel i ext, s.maxBody, 0, 0, false⟩]
    pending := openTx s.pending (e.txID i) fun t => t.setSink s.sinks.length ext
    txs := s.txs.set i (tx.setSink s.sinks.length ext) }

def Recorder.start (e : Session) (s : Recorder) (i : Nat) (tx : Tx) : Recorder :=
  { s with
    spool := s.spool.event e.marshal (.txStart (e.txID i))
    txs := s.txs.set i { tx with started := true } }

def Recorder.writeBody (e : Session) (s : Recorder) (a : Nat) (p : Bytes) (k : BodySink) : Recorder :=
  { s with
    sinks := s.sinks.set a (k.write p).1
    spool := (k.write p).2.elim s.spool fun data => s.spool.appendFile e.marshal k.rel data true }

/-- The part of endTxOnce that claims the end; the lock is kept for the event. -/
def Recorder.claim (e : Session) (s : Recorder) (i : Nat) (ev : EvTxEnd) (tx : Tx) : Recorder :=
  { s with
    txMu := true
    pending := s.pending.filter fun t => t.1 ≠ e.txID i
    txs := s.txs.set i { tx with phase := .ending ev } }

def Recorder.report (e : Session) (s : Recorder) (i : Nat) (ev : EvTxEnd) (tx : Tx) : Recorder :=
  { s with
    spool := s.spool.event e.marshal (.txEnd ev)
    txMu := false
    txs := s.txs.set i { tx with phase := .finished } }

def Recorder.sweep (s : Recorder) (kind : StopKind) (reason : Bytes) : Recorder :=
  { s with
    pending := []
    swept := s.swept ++ s.pending.map Prod.fst
    closer := .sweeping kind reason s.pending }

def step (e : Session) (s : Recorder) : Action → Option Recorder
  | .configure maxBody maxSession =>
    some { s with maxBody := maxBody, spool := { s.spool with maxSession := maxSession } }
  | .nextTxID => some { s with txs := s.txs ++ [⟨none, none, false, .running⟩] }
  | .newBodySink i ext => do
    let tx ← s.running i
    if tx.sink ext = none ∧ s.txMu = false then some (s.addSink e i ext tx) else none
  | .markWebSocket i => do
    let _ ← s.running i
    if s.txMu = false then some { s with pending := openTx s.pending (e.txID i) fun t => { t with ws := true } }
    else none
  | .txStart i => do
    let tx ← s.running i
    if tx.started = false then some (s.start e i tx) else none
  | .txResponse i => do
    let _ ← s.running i
    some { s with spool := s.spool.event e.marshal (.txResponse (e.txID i)) }
  | .write a p => do
    let k ← s.sinks[a]?
    some (s.writeBody e a p k)
  | .finish a => do
    let k ← s.sinks[a]?
    some { s with spool := if 0 < k.stored then s.spool.closeFile e.marshal k.rel else s.spool }
  | .claim i ev => do
    let tx ← s.running i
    if tx.started = true ∧ ev.id = e.txID i ∧ s.txMu = false then
      if e.txID i ∈ s.swept then some { s with txs := s.txs.set i { tx with phase := .finished } }
      else some (s.claim e i ev tx)
    else none
  | .report i => do
    let tx ← s.txs[i]?
    match tx.phase with
    | .ending ev => some (s.report e i ev tx)
    | _ => none
  | .other o => some { s with spool := s.spool.enqueue e.marshal o.op }
  | .sweep kind reason =>
    match s.closer with
    | .idle => if s.txMu = false then some (s.sweep kind reason) else none
    | _ => none
  | .snapshot j =>
    match s.closer with
    | .sweeping kind reason todo => do
      let t ← todo[j]?
      some { s with closer := .telling kind reason (todo.eraseIdx j) (s.sweptEvent t.1 t.2) }
    | _ => none
  | .tell =>
    match s.closer with
    | .telling kind reason todo ev =>
      some { s with spool := s.spool.event e.marshal (.txEnd ev), closer := .sweeping kind reason todo }
    | _ => none
  | .check =>
    match s.closer with
    | .sweeping kind reason [] =>
      some { s with closer := if s.spool.active then .announcing kind reason else .deactivating }
    | _ => none
  | .announce =>
    match s.closer with
    | .announcing kind reason =>
      some { s with spool := s.spool.event e.marshal (.stop kind reason), closer := .deactivating }
    | _ => none
  | .deactivate =>
    match s.closer with
    | .deactivating => some { s with spool := { s.spool with active := false }, closer := .raising }
    | _ => none
  | .raise =>
    match s.closer with
    | .raising => some { s with spool := { s.spool with closing := true }, closer := .closed }
    | _ => none
  | .take => s.spool.take.map fun next => { s with spool := next }
  | .work attempt stop => (s.spool.work e.marshal attempt stop).map fun next => { s with spool := next }
  | .rest => s.spool.rest.map fun next => { s with spool := next }

end Steps

section Start

def startsTx (id : Bytes) : Piece → Bool
  | .event (.txStart other) => other = id
  | _ => false

def endsTx (id : Bytes) : Piece → Bool
  | .event (.txEnd ev) => ev.id = id
  | _ => false

structure Directory (e : Session) where
  disk : Bytes → List Piece
  size : Nat
  bodies : ∀ i ext, disk (e.rel i ext) = []
  starts : ∀ i, (disk indexFileName).countP (startsTx (e.txID i)) = 0
  ends : ∀ i, (disk indexFileName).countP (endsTx (e.txID i)) = 0

def newSpool (e : Session) (dir : Directory e) (maxSession : Int) : Spool where
  maxSession := maxSession
  queue := []
  qBytes := 0
  closing := false
  active := true
  halted := false
  written := dir.size
  dropped := 0
  table := ⟨[], []⟩
  disk := dir.disk
  writer := .waiting

theorem new_spool_flow (e : Session) (dir : Directory e) (maxSession : Int) (p : Bytes) :
    (newSpool e dir maxSession).flow p = dir.disk p := by
  simp [newSpool, Spool.flow, Spool.ahead, Writer.ops, pieces]

def newRecorder (e : Session) (dir : Directory e) (maxBody maxSession : Int) : Recorder where
  spool := (newSpool e dir maxSession).event e.marshal (.segment e.nonce)
  maxBody := maxBody
  txs := []
  sinks := []
  txMu := false
  pending := []
  swept := []
  closer := .idle

def plainSession : Session := ⟨text "n", fun _ => text "x"⟩

def emptyDirectory : Directory plainSession := ⟨fun _ => [], 0, fun _ _ => rfl, fun _ => rfl, fun _ => rfl⟩

end Start

section Moves
variable {e : Session} {s t : Recorder} {act : Action}

def indexOp (ev : Event) : RecOp := .append indexFileName (some (.event ev)) false

def eventOf (e : Session) (s : Recorder) : Action → Option Event
  | .txStart i => some (.txStart (e.txID i))
  | .txResponse i => some (.txResponse (e.txID i))
  | .report i => s.txs[i]?.bind fun tx =>
    match tx.phase with
    | .ending ev => some (.txEnd ev)
    | _ => none
  | .other (.event line) => some (.other line)
  | .tell =>
    match s.closer with
    | .telling _ _ _ ev => some (.txEnd ev)
    | _ => none
  | .announce =>
    match s.closer with
    | .announcing kind reason => some (.stop kind reason)
    | _ => none
  | _ => none

def opOf (e : Session) (s : Recorder) : Action → Option RecOp
  | .write a p => s.sinks[a]?.bind fun k => (k.write p).2.map fun data => .append k.rel (rawPiece data) true
  | .finish a => s.sinks[a]?.bind fun k => if 0 < k.stored then some (.close k.rel) else none
  | .other o => some o.op
  | act => (eventOf e s act).map indexOp

inductive Offer (e : Session) (s : Recorder) : Action → RecOp → Prop where
  | index {act : Action} {ev : Event} (told : eventOf e s act = some ev) : Offer e s act (indexOp ev)
  | body {a : Nat} {p data : Bytes} {k : BodySink} (found : s.sinks[a]? = some k)
      (kept : (k.write p).2 = some data) : Offer e s (.write a p) (.append k.rel (rawPiece data) true)
  | closed {a : Nat} {k : BodySink} (found : s.sinks[a]? = some k) : Offer e s (.finish a) (.close k.rel)
  | other {o : Other} (plain : eventOf e s (.other o) = none) : Offer e s (.other o) o.op

theorem op_offer {op : RecOp} (found : opOf e s act = some op) : Offer e s act op := by
  unfold opOf at found
  split at found
  · obtain ⟨k, here, rest⟩ := Option.bind_eq_some_iff.1 found
    obtain ⟨data, kept, rfl⟩ := Option.map_eq_some_iff.1 rest
    exact .body here kept
  · obtain ⟨k, here, rest⟩ := Option.bind_eq_some_iff.1 found
    obtain ⟨-, same⟩ := Option.ite_none_right_eq_some.1 rest
    cases same
    exact .closed here
  · rename_i o
    cases found
    cases o with
    | event line => exact (.index rfl : Offer e s (.other (.event line)) (indexOp (.other line)))
    | packet | keylog | frame => exact .other rfl
  · obtain ⟨ev, told, rfl⟩ := Option.map_eq_some_iff.1 found
    exact .index told

theorem silent_event (silent : opOf e s act = none) : eventOf e s act = none := by
  unfold opOf at silent
  split at silent
  · rfl
  · rfl
  · cases silent
  · exact Option.map_eq_none_iff.1 silent

inductive Move (e : Session) (s : Recorder) : Action → Recorder → Prop where
  | configure (maxBody maxSession : Int) : Move e s (.configure maxBody maxSession)
      { s with maxBody := maxBody, spool := { s.spool with maxSession := maxSession } }
  | nextTxID : Move e s .nextTxID { s with txs := s.txs ++ [⟨none, none, false, .running⟩] }
  | newBodySink {i : Nat} {ext : Ext} {tx : Tx} (live : s.txs[i]? = some tx) (phase : tx.phase = .running)
      (free : tx.sink ext = none) (unlocked : s.txMu = false) : Move e s (.newBodySink i ext) (s.addSink e i ext tx)
  | markWebSocket {i : Nat} {tx : Tx} (live : s.txs[i]? = some tx) (phase : tx.phase = .running)
      (unlocked : s.txMu = false) : Move e s (.markWebSocket i)
      { s with pending := openTx s.pending (e.txID i) fun t => { t with ws := true } }
  | txStart {i : Nat} {tx : Tx} (live : s.txs[i]? = some tx) (phase : tx.phase = .running)
      (first : tx.started = false) : Move e s (.txStart i) (s.start e i tx)
  | txResponse {i : Nat} {tx : Tx} (live : s.txs[i]? = some tx) : Move e s (.txResponse i)
      { s with spool := s.spool.event e.marshal (.txResponse (e.txID i)) }
  | write {a : Nat} {p : Bytes} {k : BodySink} (found : s.sinks[a]? = some k) :
      Move e s (.write a p) (s.writeBody e a p k)
  | finish {a : Nat} {k : BodySink} (found : s.sinks[a]? = some k) : Move e s (.finish a)
      { s with spool := if 0 < k.stored then s.spool.closeFile e.marshal k.rel else s.spool }
  | dropped {i : Nat} {ev : EvTxEnd} {tx : Tx} (live : s.txs[i]? = some tx) (phase : tx.phase = .running)
      (swept : e.txID i ∈ s.swept) : Move e s (.claim i ev)
      { s with txs := s.txs.set i { tx with phase := .finished } }
  | claimed {i : Nat} {ev : EvTxEnd} {tx : Tx} (live : s.txs[i]? = some tx) (phase : tx.phase = .running)
      (started : tx.started = true) (named : ev.id = e.txID i) (unlocked : s.txMu = false)
      (unswept : e.txID i ∉ s.swept) : Move e s (.claim i ev) (s.claim e i ev tx)
  | report {i : Nat} {ev : EvTxEnd} {tx : Tx} (live : s.txs[i]? = some tx) (phase : tx.phase = .ending ev) :
      Move e s (.report i) (s.report e i ev tx)
  | other (o : Other) : Move e s (.other o) { s with spool := s.spool.enqueue e.marshal o.op }
  | sweep {kind : StopKind} {reason : Bytes} (stage : s.closer = .idle) (unlocked : s.txMu = false) :
      Move e s (.sweep kind reason) (s.sweep kind reason)
  | snapshot {j : Nat} {kind : StopKind} {reason : Bytes} {todo : List (Bytes × PendingTx)} {t : Bytes × PendingTx}
      (stage : s.closer = .sweeping kind reason todo) (chosen : todo[j]? = some t) : Move e s (.snapshot j)
      { s with closer := .telling kind reason (todo.eraseIdx j) (s.sweptEvent t.1 t.2) }
  | tell {kind : StopKind} {reason : Bytes} {todo : List (Bytes × PendingTx)} {ev : EvTxEnd}
      (stage : s.closer = .telling kind reason todo ev) : Move e s .tell
      { s with spool := s.spool.event e.marshal (.txEnd ev), closer := .sweeping kind reason todo }
  | check {kind : StopKind} {reason : Bytes} (stage : s.closer = .sweeping kind reason []) : Move e s .check
      { s with closer := if s.spool.active then .announcing kind reason else .deactivating }
  | announce {kind : StopKind} {reason : Bytes} (stage : s.closer = .announcing kind reason) : Move e s .announce
      { s with spool := s.spool.event e.marshal (.stop kind reason), closer := .deactivating }
  | deactivate (stage : s.closer = .deactivating) : Move e s .deactivate
      { s with spool := { s.spool with active := false }, closer := .raising }
  | raise (stage : s.closer = .raising) : Move e s .raise
      { s with spool := { s.spool with closing := true }, closer := .closed }
  | take {next : Spool} (took : s.spool.take = some next) : Move e s .take { s with spool := next }
  | work {attempt stop : Attempt} {next : Spool} (did : s.spool.work e.marshal attempt stop = some next) :
      Move e s (.work attempt stop) { s with spool := next }
  | rest {next : Spool} (did : s.spool.rest = some next) : Move e s .rest { s with spool := next }

theorem running_some {i : Nat} {tx : Tx} (found : s.running i = some tx) :
    s.txs[i]? = some tx ∧ tx.phase = .running := by
  simpa [Recorder.running, Option.filter_eq_some_iff] using found

theorem step_move (moved : step e s act = some t) : Move e s act t := by
  cases act with
  | configure maxBody maxSession =>
    cases moved
    exact .configure maxBody maxSession
  | nextTxID =>
    cases moved
    exact .nextTxID
  | newBodySink i ext =>
    obtain ⟨tx, live, rest⟩ := Option.bind_eq_some_iff.1 moved
    obtain ⟨⟨free, unlocked⟩, same⟩ := Option.ite_none_right_eq_some.1 rest
    cases same
    exact .newBodySink (running_some live).1 (running_some live).2 free unlocked
  | markWebSocket i =>
    obtain ⟨tx, live, rest⟩ := Option.bind_eq_some_iff.1 moved
    obtain ⟨unlocked, same⟩ := Option.ite_none_right_eq_some.1 rest
    cases same
    exact .markWebSocket (running_some live).1 (running_some live).2 unlocked
  | txStart i =>
    obtain ⟨tx, live, rest⟩ := Option.bind_eq_some_iff.1 moved
    obtain ⟨first, same⟩ := Option.ite_none_right_eq_some.1 rest
    cases same
    exact .txStart (running_some live).1 (running_some live).2 first
  | txResponse i =>
    obtain ⟨tx, live, rest⟩ := Option.bind_eq_some_iff.1 moved
    cases rest
    exact .txResponse (running_some live).1
  | write a p =>
    obtain ⟨k, found, rest⟩ := Option.bind_eq_some_iff.1 moved
    cases rest
    exact .write found
  | finish a =>
    obtain ⟨k, found, rest⟩ := Option.bind_eq_some_iff.1 moved
    cases rest
    exact .finish found
  | claim i ev =>
    obtain ⟨tx, live, rest⟩ := Option.bind_eq_some_iff.1 moved
    obtain ⟨⟨started, named, unlocked⟩, same⟩ := Option.ite_none_right_eq_some.1 rest
    split at same
    · rename_i swept
      cases same
      exact .dropped (running_some live).1 (running_some live).2 swept
    · rename_i unswept
      cases same
      exact .claimed (running_some live).1 (running_some live).2 started named unlocked unswept
  | report i =>
    obtain ⟨tx, live, rest⟩ := Option.bind_eq_some_iff.1 moved
    split at rest
    · rename_i ev phase
      cases rest
      exact .report live phase
    · cases rest
  | other o =>
    cases moved
    exact .other o
  | sweep kind reason =>
    simp only [step] at moved
    split at moved
    · rename_i idle
      obtain ⟨unlocked, same⟩ := Option.ite_none_right_eq_some.1 moved
      cases same
      exact .sweep idle unlocked
    · cases moved
  | snapshot j =>
    simp only [step] at moved
    split at moved
    · rename_i sweeping
      obtain ⟨t, chosen, rest⟩ := Option.bind_eq_some_iff.1 moved
      cases rest
      exact .snapshot sweeping chosen
    · cases moved
  | tell =>
    simp only [step] at moved
    split at moved
    · rename_i telling
      cases moved
      exact .tell telling
    · cases moved
  | check =>
    simp only [step] at moved
    split at moved
    · rename_i sweeping
      cases moved
      exact .check sweeping
    · cases moved
  | announce =>
    simp only [step] at moved
    split at moved
    · rename_i announcing
      cases moved
      exact .announce announcing
    · cases moved
  | deactivate =>
    simp only [step] at moved
    split at moved
    · rename_i deactivating
      cases moved
      exact .deactivate deactivating
    · cases moved
  | raise =>
    simp only [step] at moved
    split at moved
    · rename_i raising
      cases moved
      exact .raise raising
    · cases moved
  | take =>
    obtain ⟨next, took, rfl⟩ := Option.map_eq_some_iff.1 moved
    exact .take took
  | work attempt stop =>
    obtain ⟨next, did, rfl⟩ := Option.map_eq_some_iff.1 moved
    exact .work did
  | rest =>
    obtain ⟨next, did, rfl⟩ := Option.map_eq_some_iff.1 moved
    exact .rest did

structure SameFlow (s t : Spool) : Prop where
  queue : t.queue = s.queue
  disk : t.disk = s.disk
  writer : t.writer = s.writer

inductive SpoolMove (e : Session) (s : Recorder) : Action → Spool → Prop where
  | flags {act : Action} {next : Spool} (same : SameFlow s.spool next) (silent : opOf e s act = none) :
      SpoolMove e s act next
  | offered {act : Action} {op : RecOp} (found : opOf e s act = some op) :
      SpoolMove e s act (s.spool.enqueue e.marshal op)
  | taken {next : Spool} (took : s.spool.take = some next) : SpoolMove e s .take next
  | worked {attempt stop : Attempt} {next : Spool} (did : s.spool.work e.marshal attempt stop = some next) :
      SpoolMove e s (.work attempt stop) next
  | rested {next : Spool} (did : s.spool.rest = some next) : SpoolMove e s .rest next

theorem step_spool (moved : step e s act = some t) : SpoolMove e s act t.spool := by
  have still : SameFlow s.spool s.spool := ⟨rfl, rfl, rfl⟩
  cases step_move moved with
  | configure | deactivate | raise => exact .flags ⟨rfl, rfl, rfl⟩ rfl
  | nextTxID | newBodySink | markWebSocket | dropped | claimed | sweep | snapshot | check => exact .flags still rfl
  | txStart | txResponse | other => exact .offered rfl
  | @write a p k found =>
    cases kept : (k.write p).2 with
    | none => exact .flags (by simpa [Recorder.writeBody, kept] using still) (by simp [opOf, found, kept])
    | some data =>
      simp only [Recorder.writeBody, kept, Option.elim_some]
      exact .offered (by simp [opOf, found, kept])
  | @finish a k found =>
    by_cases some : 0 < k.stored
    · simp only [some, ↓reduceIte]
      exact .offered (by simp [opOf, found, some])
    · simp only [some, ↓reduceIte]
      exact .flags still (by simp [opOf, found, some])
  | report live phase => exact .offered (by simp [opOf, eventOf, live, phase, indexOp])
  | tell stage => exact .offered (by simp [opOf, eventOf, stage, indexOp])
  | announce stage => exact .offered (by simp [opOf, eventOf, stage, indexOp])
  | take took => exact .taken took
  | work did => exact .worked did
  | rest did => exact .rested did

inductive FlagMove (s t : Spool) : Action → Prop where
  | same {act : Action} (flags : t.active = s.active ∧ t.halted = s.halted ∧ t.closing = s.closing) : FlagMove s t act
  | stopped {attempt stop : Attempt} (running : s.halted = false)
      (flags : t.active = false ∧ t.halted = true ∧ t.closing = s.closing) : FlagMove s t (.work attempt stop)
  | deactivated (flags : t.active = false ∧ t.halted = s.halted ∧ t.closing = s.closing) : FlagMove s t .deactivate
  | raised (flags : t.active = s.active ∧ t.halted = s.halted ∧ t.closing = true) : FlagMove s t .raise

theorem step_flags (moved : step e s act = some t) : FlagMove s.spool t.spool act := by
  have kept : ∀ {next : Spool} {act : Action}, SameWriter s.spool next → FlagMove s.spool next act :=
    fun same => .same ⟨same.active, same.halted, same.closing⟩
  cases step_move moved with
  | configure | nextTxID | newBodySink | markWebSocket | dropped | claimed | sweep | snapshot | check =>
    exact .same ⟨rfl, rfl, rfl⟩
  | txStart | txResponse | report | other | tell | announce => exact kept (enqueue_same _ _ _)
  | @write a p k found =>
    simp only [Recorder.writeBody]
    cases (k.write p).2 with
    | none => exact .same ⟨rfl, rfl, rfl⟩
    | some data => exact kept (enqueue_same _ _ _)
  | @finish a k found =>
    dsimp only
    split
    · exact kept (enqueue_same _ _ _)
    · exact .same ⟨rfl, rfl, rfl⟩
  | deactivate => exact .deactivated ⟨rfl, rfl, rfl⟩
  | raise => exact .raised ⟨rfl, rfl, rfl⟩
  | take took =>
    have same := take_flags took
    exact .same ⟨same.active, same.halted, same.closing⟩
  | work did =>
    obtain ⟨-, -, -, -, -, closing, -⟩ := work_cases did
    cases work_flags did with
    | same active halted => exact .same ⟨active, halted, closing⟩
    | stopped running active halted => exact .stopped running ⟨active, halted, closing⟩
  | rest did =>
    have same := rest_flags did
    exact .same ⟨same.active, same.halted, same.closing⟩

theorem step_closing (moved : step e s act = some t) (other : act ≠ .raise) : t.spool.closing = s.spool.closing := by
  cases step_flags moved with
  | same flags | stopped _ flags | deactivated flags => exact flags.2.2
  | raised => exact absurd rfl other

def added (e : Session) (s : Recorder) (act : Action) (p : Bytes) : List Piece :=
  (opOf e s act).elim [] fun op => if s.spool.Accepts e.marshal op then (pieceFor p op).toList else []

def Action.Sound : Action → Prop
  | .work attempt stop => attempt = .succeeds ∧ stop = .succeeds
  | _ => True

instance (act : Action) : Decidable act.Sound := by
  cases act <;> unfold Action.Sound <;> infer_instance

def Kept (s : Recorder) (act : Action) (p : Bytes) : Prop :=
  ∀ attempt stop op ops, act = .work attempt stop → s.spool.ahead = op :: ops → pieceFor p op ≠ none →
    s.spool.halted = false

theorem same_flow {r next : Spool} (same : SameFlow r next) (p : Bytes) : next.flow p = r.flow p := by
  simp only [Spool.flow, Spool.ahead, same.queue, same.disk, same.writer]

theorem step_flow_cases (moved : step e s act = some t) :
    (∀ p, t.spool.flow p = s.spool.flow p ++ added e s act p) ∨
      ∃ attempt stop, act = .work attempt stop ∧ s.spool.work e.marshal attempt stop = some t.spool := by
  have move := step_spool moved
  generalize t.spool = next at move ⊢
  cases move with
  | flags same silent => exact Or.inl fun p => by simp [added, silent, same_flow same]
  | offered found => exact Or.inl fun p => by simp [added, found, enqueue_flow]
  | taken took => exact Or.inl fun p => by simp [added, opOf, eventOf, take_flow took]
  | worked did => exact Or.inr ⟨_, _, rfl, did⟩
  | rested did => exact Or.inl fun p => by simp [added, opOf, eventOf, rest_flow did]

theorem step_flow {p : Bytes} (moved : step e s act = some t) (sound : act.Sound) (other : p ≠ indexFileName)
    (kept : Kept s act p) : t.spool.flow p = s.spool.flow p ++ added e s act p := by
  rcases step_flow_cases moved with grown | ⟨attempt, stop, rfl, did⟩
  · exact grown p
  · obtain ⟨rfl, rfl⟩ := sound
    simp [added, opOf, eventOf, work_flow_apart did other fun op ops front => kept _ _ op ops rfl front]

theorem step_count {q : Piece → Bool} (quiet : ∀ kind reason, q (.event (.stop kind reason)) = false)
    (moved : step e s act = some t) (sound : act.Sound) :
    (t.spool.flow indexFileName).countP q =
      (s.spool.flow indexFileName).countP q + (added e s act indexFileName).countP q := by
  rcases step_flow_cases moved with grown | ⟨attempt, stop, rfl, did⟩
  · rw [grown, List.countP_append]
  · obtain ⟨rfl, rfl⟩ := sound
    simp [added, opOf, eventOf, work_flow_count did q quiet]

end Moves

section Draining
variable {e : Session} {s t : Recorder}

theorem apply_undisturbed (m : Event → Bytes) {s : Spool} (endless : s.maxSession ≤ 0) (op : RecOp)
    (stop : Attempt) : Undisturbed s (s.apply m op .succeeds stop) := by
  unfold Spool.apply
  split
  · exact ⟨rfl, rfl, rfl, rfl, rfl, rfl⟩
  · exact ⟨rfl, rfl, rfl, rfl, rfl, rfl⟩
  · rename_i path piece droppable
    split
    · exact ⟨rfl, rfl, rfl, rfl, rfl, rfl⟩
    · obtain ⟨maxSession, queue, qBytes, closing, active, halted⟩ := put_undisturbed m s path piece .succeeds
      have unlimited : ¬ (0 < (s.put m path piece .succeeds).1.maxSession ∧
          (s.put m path piece .succeeds).1.maxSession <
            ((s.put m path piece .succeeds).1.written + (piece.bytes m).length : Nat)) := by
        rw [maxSession]
        omega
      simp only [(put_succeeds m s path piece).1, ↓reduceIte, Spool.counted, if_neg unlimited]
      exact ⟨maxSession, queue, qBytes, closing, active, halted⟩

structure Drained (s t : Recorder) : Prop where
  same : t = { s with spool := t.spool }
  spool : Undisturbed { s.spool with queue := [], qBytes := 0 } t.spool
  writer : t.spool.writer = .waiting
  flow : ∀ p, p ≠ indexFileName → s.spool.halted = false → t.spool.flow p = s.spool.flow p

theorem work_drains {ops : List RecOp} (busy : s.spool.writer = .working ops false) (endless : s.spool.maxSession ≤ 0) :
    ∃ t, run (step e) s (List.replicate ops.length (.work .succeeds .succeeds)) = some t ∧
      t = { s with spool := t.spool } ∧ Undisturbed s.spool t.spool ∧ t.spool.writer = .working [] false ∧
      ∀ p, p ≠ indexFileName → s.spool.halted = false → t.spool.flow p = s.spool.flow p := by
  induction ops generalizing s with
  | nil => exact ⟨s, rfl, rfl, ⟨rfl, rfl, rfl, rfl, rfl, rfl⟩, busy, fun _ _ _ => rfl⟩
  | cons op ops ih =>
    let next : Spool := { s.spool.apply e.marshal op .succeeds .succeeds with writer := .working ops false }
    have did : s.spool.work e.marshal .succeeds .succeeds = some next := by
      unfold Spool.work
      rw [busy]
    obtain ⟨maxSession, queue, qBytes, closing, active, halted⟩ := apply_undisturbed e.marshal endless op .succeeds
    obtain ⟨t, reached, same, undisturbed, writer, flow⟩ := ih (s := { s with spool := next }) rfl
      (show next.maxSession ≤ 0 from maxSession ▸ endless)
    obtain ⟨maxSession', queue', qBytes', closing', active', halted'⟩ := undisturbed
    refine ⟨t, ?_, same, ⟨maxSession'.trans maxSession, queue'.trans queue, qBytes'.trans qBytes,
      closing'.trans closing, active'.trans active, halted'.trans halted⟩, writer, fun p other running => ?_⟩
    · rw [List.length_cons, List.replicate_succ, run_cons]
      simp only [step, did, Option.map_some, Option.bind_some]
      exact reached
    · rw [flow p other (show next.halted = false from halted.trans running),
        work_flow_apart did other fun _ _ _ _ => running]

theorem drained_ahead (drained : Drained s t) : t.spool.ahead = [] := by
  rw [Spool.ahead, drained.writer, drained.spool.queue]
  rfl

def drainActions (n : Nat) : List Action := [.take] ++ List.replicate n (.work .succeeds .succeeds) ++ [.rest]

theorem waiting_drains (waiting : s.spool.writer = .waiting) (closing : s.spool.closing = false)
    (endless : s.spool.maxSession ≤ 0) :
    ∃ t, run (step e) s (drainActions s.spool.queue.length) = some t ∧ Drained s t := by
  let next : Spool := { s.spool with queue := [], qBytes := 0, writer := .working s.spool.queue false }
  have took : s.spool.take = some next := by
    simp only [Spool.take, waiting, closing, next]
  obtain ⟨t, reached, same, undisturbed, writer, flow⟩ :=
    work_drains (e := e) (s := { s with spool := next }) rfl endless
  have rested : t.spool.rest = some { t.spool with writer := .waiting } := by
    simp only [Spool.rest, writer]
  refine ⟨{ t with spool := { t.spool with writer := .waiting } }, ?_, ?_, ?_, rfl, fun p other running => ?_⟩
  · rw [drainActions, run_append, run_append, run_cons]
    simp only [step, took, Option.map_some, Option.bind_some, run_nil]
    rw [reached, Option.bind_some, run_cons]
    simp only [step, rested, Option.map_some, Option.bind_some, run_nil]
  · rw [same]
  · obtain ⟨maxSession, queue, qBytes, closing, active, halted⟩ := undisturbed
    exact ⟨maxSession, queue, qBytes, closing, active, halted⟩
  · rw [rest_flow rested, flow p other running, take_flow took]

end Draining

end RecorderSystem
