import RootShell.RecorderSystem

/-!
The terminal events of a recorder: the stop event that its writer appends when the
recorder halts, and the event of its close, which is queued behind what was there.
-/
namespace TerminalEvents
open ByteLines RecorderQueue RecorderSystem Interleaving

variable {reason : Bytes} {maxBody maxSession : Int}

section Applying
variable {m : Event → Bytes} {s : Spool} {op : RecOp} {attempt : Attempt}

def isTerminal : Piece → Bool
  | .event (.stop _ _) => true
  | _ => false

def terminals (disk : Bytes → List Piece) : List Piece := (disk indexFileName).filter isTerminal

def haltReason (m : Event → Bytes) (s : Spool) (op : RecOp) (attempt : Attempt) : Option Bytes :=
  match op with
  | .append path (some piece) _ =>
    if s.halted then none
    else if (s.put m path piece attempt).2 = false then some (text "writeError")
    else if 0 < s.maxSession ∧ s.maxSession < (s.written + (piece.bytes m).length : Nat) then some (text "sizeLimit")
    else none
  | _ => none

theorem put_terminals (m : Event → Bytes) (s : Spool) (rel : Bytes) (piece : Piece) (attempt : Attempt) :
    terminals (s.put m rel piece attempt).1.disk =
      terminals s.disk ++
        if (s.put m rel piece attempt).2 = true ∧ rel = indexFileName then [piece].filter isTerminal else [] := by
  have torn : ∀ data : Bytes, (rawPiece data).toList.filter isTerminal = [] := by
    intro data
    unfold rawPiece
    split <;> rfl
  unfold Spool.put terminals
  dsimp only
  split
  · by_cases here : rel = indexFileName
    · subst here
      split
      · simp [List.filter_append]
      · simp [List.filter_append, torn]
    · have away : indexFileName ≠ rel := fun same => here same.symm
      split
      · simp [here, Function.update_of_ne away]
      · simp [Function.update_of_ne away]
  · simp

def carried (op : RecOp) : List Piece := (pieces indexFileName [op]).filter isTerminal

theorem put_carried (m : Event → Bytes) (s : Spool) (path : Bytes) (piece : Piece) (droppable : Bool)
    (attempt : Attempt) :
    ∃ own, terminals (s.put m path piece attempt).1.disk = terminals s.disk ++ own ∧
      (own = [] ∨ own = carried (.append path (some piece) droppable)) := by
  refine ⟨_, put_terminals m s path piece attempt, ?_⟩
  split
  · rename_i landed
    right
    simp [carried, pieces, pieceFor, RecOp.path, RecOp.data, landed.2]
  · exact Or.inl rfl

theorem auto_stop_terminals (m : Event → Bytes) (running : s.halted = false) (reason : Bytes) (stop : Attempt) :
    (s.autoStop m reason stop).halted = true ∧
      ∃ halt, terminals (s.autoStop m reason stop).disk = terminals s.disk ++ halt ∧
        (halt = [] ∨ halt = [stopPiece reason]) ∧ (stop = .succeeds → halt = [stopPiece reason]) := by
  unfold Spool.autoStop
  rw [if_neg (by simp [running])]
  refine ⟨(put_undisturbed m _ _ _ _).halted, _, put_terminals m _ _ _ _, ?_, fun succeeds => ?_⟩
  · split
    · exact Or.inr rfl
    · exact Or.inl rfl
  · subst succeeds
    rw [if_pos ⟨(put_succeeds m _ _ _).1, rfl⟩]
    rfl

/-- An operation with data is written, or left out by a halted recorder; after that the
    recorder goes on as it was, or halts for the reason. -/
theorem apply_outcome (m : Event → Bytes) (s : Spool) (path : Bytes) (piece : Piece) (droppable : Bool)
    (attempt stop : Attempt) :
    ∃ next : Spool, (next.disk = s.disk ∨ next.disk = (s.put m path piece attempt).1.disk) ∧ next.halted = s.halted ∧
      match haltReason m s (.append path (some piece) droppable) attempt with
      | none => s.apply m (.append path (some piece) droppable) attempt stop = next
      | some reason => s.halted = false ∧
          s.apply m (.append path (some piece) droppable) attempt stop = next.autoStop m reason stop := by
  have same := put_undisturbed m s path piece attempt
  have count := put_written m s path piece attempt
  generalize told : s.put m path piece attempt = out at same count ⊢
  let next : Spool := { out.1 with written := out.1.written + (piece.bytes m).length }
  simp only [haltReason, Spool.apply, Spool.counted, told]
  cases halted : s.halted with
  | true =>
    have stays : out.1.halted = true := same.halted.trans halted
    by_cases index : path = indexFileName
    · simp only [index, ne_eq, not_true_eq_false, false_and, ↓reduceIte]
      split
      · split
        · exact ⟨next, Or.inr rfl, stays, auto_stop_halted m (s := next) stays _ _⟩
        · exact ⟨next, Or.inr rfl, stays, rfl⟩
      · exact ⟨out.1, Or.inr rfl, stays, auto_stop_halted m stays _ _⟩
    · exact ⟨s, Or.inl rfl, halted, by simp [index]⟩
  | false =>
    have goes : out.1.halted = false := same.halted.trans halted
    simp only [Bool.false_eq_true, and_false, ↓reduceIte]
    cases out.2 with
    | false => exact ⟨out.1, Or.inr rfl, goes, by simp⟩
    | true =>
      have limit : (0 < out.1.maxSession ∧ out.1.maxSession < (out.1.written + (piece.bytes m).length : Nat)) ↔
          0 < s.maxSession ∧ s.maxSession < (s.written + (piece.bytes m).length : Nat) := by
        rw [same.maxSession, count]
      refine ⟨next, Or.inr rfl, goes, ?_⟩
      by_cases crossing : 0 < s.maxSession ∧ s.maxSession < (s.written + (piece.bytes m).length : Nat)
      · simp only [Bool.true_eq_false, ↓reduceIte, if_pos crossing, if_pos (limit.2 crossing)]
        exact ⟨trivial, rfl⟩
      · simp only [Bool.true_eq_false, ↓reduceIte, if_neg crossing, if_neg (mt limit.1 crossing)]
        rfl

theorem apply_goes_on (on : haltReason m s op attempt = none) (stop : Attempt) :
    (s.apply m op attempt stop).halted = s.halted ∧
      ∃ own, terminals (s.apply m op attempt stop).disk = terminals s.disk ++ own ∧ (own = [] ∨ own = carried op) := by
  cases op with
  | close path => exact ⟨rfl, [], (List.append_nil _).symm, Or.inl rfl⟩
  | append path data droppable =>
    cases data with
    | none => exact ⟨rfl, [], (List.append_nil _).symm, Or.inl rfl⟩
    | some piece =>
      obtain ⟨next, disk, halted, outcome⟩ := apply_outcome m s path piece droppable attempt stop
      simp only [on] at outcome
      rw [outcome]
      refine ⟨halted, ?_⟩
      rcases disk with same | wrote
      · exact ⟨[], by rw [same, List.append_nil], Or.inl rfl⟩
      · rw [wrote]
        exact put_carried m s path piece droppable attempt

theorem apply_halts (halts : haltReason m s op attempt = some reason) (stop : Attempt) :
    s.halted = false ∧ (s.apply m op attempt stop).halted = true ∧
      ∃ own halt, terminals (s.apply m op attempt stop).disk = terminals s.disk ++ own ++ halt ∧
        (own = [] ∨ own = carried op) ∧ (halt = [] ∨ halt = [stopPiece reason]) ∧
        (stop = .succeeds → halt = [stopPiece reason]) := by
  cases op with
  | close path => cases halts
  | append path data droppable =>
    cases data with
    | none => cases halts
    | some piece =>
      obtain ⟨next, disk, still, outcome⟩ := apply_outcome m s path piece droppable attempt stop
      simp only [halts] at outcome
      obtain ⟨running, stopped⟩ := outcome
      obtain ⟨halted, halt, events, one, whole⟩ :=
        auto_stop_terminals m (still.trans running) reason stop
      rw [stopped]
      refine ⟨running, halted, ?_⟩
      rcases disk with same | wrote
      · exact ⟨[], halt, by rw [events, same, List.append_nil], Or.inl rfl, one, whole⟩
      · obtain ⟨own, added, carried⟩ := put_carried m s path piece droppable attempt
        exact ⟨own, halt, by rw [events, wrote, added], carried, one, whole⟩

theorem apply_bounded (m : Event → Bytes) (s : Spool) (op : RecOp) (attempt stop : Attempt) :
    ∃ grown, terminals (s.apply m op attempt stop).disk = terminals s.disk ++ grown ∧
      grown.length + s.halted.toNat ≤ (carried op).length + (s.apply m op attempt stop).halted.toNat := by
  have fits {own : List Piece} (part : own = [] ∨ own = carried op) : own.length ≤ (carried op).length := by
    rcases part with rfl | rfl <;> simp
  cases reason : haltReason m s op attempt with
  | none =>
    obtain ⟨still, own, grown, part⟩ := apply_goes_on reason stop
    have small := fits part
    refine ⟨own, grown, ?_⟩
    rw [still]
    omega
  | some reason =>
    obtain ⟨running, stopped, own, halt, grown, part, one, _⟩ := apply_halts reason stop
    have small := fits part
    have single : halt.length ≤ 1 := by
      rcases one with rfl | rfl <;> simp
    refine ⟨own ++ halt, by rw [grown, List.append_assoc], ?_⟩
    rw [running, stopped, List.length_append]
    simp only [Bool.toNat_false, Bool.toNat_true]
    omega

end Applying

section Steps
variable {e : Session} {s t : Recorder} {act : Action}

def queued (s : Recorder) : List Piece := (pieces indexFileName s.spool.ahead).filter isTerminal

def past : Closer → Bool
  | .deactivating | .raising | .closed => true
  | _ => false

theorem event_terminal {ev : Event} (told : eventOf e s act = some ev) (terminal : isTerminal (.event ev) = true) :
    act = .announce := by
  cases act with
  | announce => rfl
  | txStart | txResponse =>
    cases told
    cases terminal
  | report i =>
    obtain ⟨tx, _, rest⟩ := Option.bind_eq_some_iff.1 told
    split at rest
    · cases rest
      cases terminal
    · cases rest
  | other o =>
    cases o with
    | event line =>
      cases told
      cases terminal
    | packet | keylog | frame => cases told
  | tell =>
    simp only [eventOf] at told
    split at told
    · cases told
      cases terminal
    · cases told
  | configure | nextTxID | newBodySink | markWebSocket | write | finish | claim | sweep | snapshot | check | deactivate
  | raise | take | work | rest => cases told

theorem raw_not_terminal (p data rel : Bytes) (droppable : Bool) :
    ((pieceFor p (.append rel (rawPiece data) droppable)).toList).filter isTerminal = [] := by
  unfold pieceFor
  split
  · simp only [RecOp.data, rawPiece]
    split <;> rfl
  · rfl

theorem added_terminals (e : Session) (s : Recorder) (act : Action) :
    ((added e s act indexFileName).filter isTerminal).length ≤ 1 ∧
      (act ≠ .announce → (added e s act indexFileName).filter isTerminal = []) := by
  unfold added
  cases found : opOf e s act with
  | none => exact ⟨Nat.zero_le _, fun _ => rfl⟩
  | some op =>
    dsimp only [Option.elim_some]
    split
    · refine ⟨?_, fun other => ?_⟩
      · refine (List.length_filter_le _ _).trans ?_
        cases pieceFor indexFileName op <;> simp
      · cases op_offer found with
        | @index _ ev told =>
          have quiet : isTerminal (.event ev) = false := by
            rw [← Bool.not_eq_true]
            exact fun terminal => other (event_terminal told terminal)
          simp [pieceFor, indexOp, RecOp.path, RecOp.data, quiet]
        | body => exact raw_not_terminal _ _ _ _
        | closed => simp [pieceFor, RecOp.data]
        | @other o plain =>
          cases o with
          | event line => cases plain
          | packet | keylog | frame => exact raw_not_terminal _ _ _ _
    · exact ⟨Nat.zero_le _, fun _ => rfl⟩

inductive EventMove (e : Session) (s t : Recorder) : Action → Prop where
  | worked {attempt stop : Attempt} {op : RecOp} (front : queued s = carried op ++ queued t)
      (disk : t.spool.disk = (s.spool.apply e.marshal op attempt stop).disk)
      (halted : t.spool.halted = (s.spool.apply e.marshal op attempt stop).halted)
      (ahead : s.spool.ahead.head? = some op) : EventMove e s t (.work attempt stop)
  | offered {act : Action} (idle : ∀ attempt stop, act ≠ .work attempt stop)
      (disk : t.spool.disk = s.spool.disk) (halted : t.spool.halted = s.spool.halted)
      (grown : queued t = queued s ++ (added e s act indexFileName).filter isTerminal) : EventMove e s t act

theorem step_disk (moved : step e s act = some t) (idle : ∀ attempt stop, act ≠ .work attempt stop) :
    t.spool.disk = s.spool.disk := by
  have move := step_spool moved
  generalize t.spool = next at move ⊢
  cases move with
  | flags same => exact same.disk
  | offered => exact (enqueue_same _ _ _).disk
  | taken took => exact (take_flags took).disk
  | worked => exact absurd rfl (idle _ _)
  | rested did => exact (rest_flags did).disk

theorem step_events (moved : step e s act = some t) : EventMove e s t act := by
  by_cases working : ∃ attempt stop, act = .work attempt stop
  · obtain ⟨attempt, stop, rfl⟩ := working
    obtain ⟨next, did, rfl⟩ := Option.map_eq_some_iff.1 moved
    obtain ⟨op, ops, front, left, disk, -, -, halted⟩ := work_cases did
    refine .worked ?_ disk halted (by rw [front, List.head?_cons])
    rw [queued, queued, carried, left, front, ← List.filter_append, pieces, pieces, pieces, ← List.filterMap_append,
      List.singleton_append]
  · have idle : ∀ attempt stop, act ≠ .work attempt stop := fun attempt stop same => working ⟨attempt, stop, same⟩
    have disk := step_disk moved idle
    refine .offered idle disk ?_ ?_
    · cases step_flags moved with
      | same flags | deactivated flags | raised flags => exact flags.2.1
      | stopped => exact absurd rfl (idle _ _)
    · rcases step_flow_cases moved with grown | ⟨attempt, stop, same, _⟩
      · have flow := grown indexFileName
        rw [Spool.flow, Spool.flow, disk, List.append_assoc] at flow
        rw [queued, queued, List.append_cancel_left flow, List.filter_append]
      · exact absurd same (idle _ _)

theorem step_past (moved : step e s act = some t) :
    (past s.closer = true → past t.closer = true ∧ act ≠ .announce) ∧ (act = .announce → past t.closer = true) := by
  cases step_move moved with
  | configure | nextTxID | newBodySink | markWebSocket | txStart | txResponse | write | finish | dropped | claimed
  | report | other | take | work | rest => exact ⟨fun told => ⟨told, nofun⟩, nofun⟩
  | sweep stage | snapshot stage | tell stage | check stage =>
    rw [stage]
    exact ⟨nofun, nofun⟩
  | announce stage =>
    rw [stage]
    exact ⟨nofun, fun _ => rfl⟩
  | deactivate | raise => exact ⟨fun _ => ⟨rfl, nofun⟩, nofun⟩

end Steps

section Runs
variable {e : Session} {s t : Recorder} {acts : List Action} {act : Action}

def isAnnounce : Action → Bool
  | .announce => true
  | _ => false

def announced (acts : List Action) : Bool := acts.any isAnnounce

theorem isAnnounce_iff : isAnnounce act = true ↔ act = .announce := by
  cases act <;> simp [isAnnounce]

theorem announced_concat (acts : List Action) (act : Action) :
    announced (acts ++ [act]) = (announced acts || isAnnounce act) := by
  simp [announced]

structure Ended (older : List Piece) (acts : List Action) (s : Recorder) : Prop where
  events : ∃ newer, terminals s.spool.disk = older ++ newer ∧
    newer.length + (queued s).length ≤ s.spool.halted.toNat + (announced acts).toNat
  told : announced acts = true → past s.closer = true

theorem step_told (told : announced acts = true → past s.closer = true) (moved : step e s act = some t) :
    (announced (acts ++ [act]) = true → past t.closer = true) ∧
      (announced (acts ++ [act])).toNat = (announced acts).toNat + (isAnnounce act).toNat := by
  obtain ⟨later, now⟩ := step_past moved
  rw [announced_concat]
  cases before : announced acts with
  | true =>
    obtain ⟨stays, other⟩ := later (told before)
    have quiet : isAnnounce act = false := Bool.eq_false_iff.2 (mt isAnnounce_iff.1 other)
    exact ⟨fun _ => stays, by rw [quiet]; rfl⟩
  | false =>
    rw [Bool.false_or]
    exact ⟨fun here => now (isAnnounce_iff.1 here), by simp⟩

theorem step_ended {older : List Piece} (ended : Ended older acts s) (moved : step e s act = some t) :
    Ended older (acts ++ [act]) t := by
  obtain ⟨⟨newer, disk, bounded⟩, told⟩ := ended
  obtain ⟨told', count⟩ := step_told told moved
  refine ⟨?_, told'⟩
  rw [count]
  cases step_events moved with
  | @worked attempt stop op front written halted _ =>
    obtain ⟨grown, more, small⟩ := apply_bounded e.marshal s.spool op attempt stop
    refine ⟨newer ++ grown, by rw [written, more, disk, List.append_assoc], ?_⟩
    rw [front, List.length_append] at bounded
    rw [halted, List.length_append]
    omega
  | offered idle kept halted grown =>
    obtain ⟨one, quiet⟩ := added_terminals e s act
    refine ⟨newer, by rw [kept, disk], ?_⟩
    rw [halted, grown, List.length_append]
    cases sent : isAnnounce act with
    | true =>
      simp only [Bool.toNat_true]
      omega
    | false =>
      rw [quiet (mt isAnnounce_iff.2 (Bool.eq_false_iff.1 sent)), List.length_nil]
      simp only [Bool.toNat_false]
      omega

theorem start_ended (e : Session) (dir : Directory e) (maxBody maxSession : Int) :
    Ended (terminals dir.disk) [] (newRecorder e dir maxBody maxSession) := by
  refine ⟨⟨[], ?_, ?_⟩, nofun⟩
  · simp [newRecorder, Spool.event, newSpool, (enqueue_same _ _ _).disk]
  · have empty : queued (newRecorder e dir maxBody maxSession) = [] := by
      simp only [queued, newRecorder, Spool.event, Spool.ahead, enqueue_queue, (enqueue_same _ _ _).writer]
      by_cases taken : (newSpool e dir maxSession).Accepts e.marshal
          (.append indexFileName (some (.event (.segment e.nonce))) false)
      · rw [if_pos taken]
        rfl
      · rw [if_neg taken]
        rfl
    simp [empty]

theorem run_ended {dir : Directory e}
    (reached : run (step e) (newRecorder e dir maxBody maxSession) acts = some s) : Ended (terminals dir.disk) acts s :=
  run_history (start_ended e dir maxBody maxSession) (fun _ _ _ _ ended moved => step_ended ended moved) reached

theorem halted_run (halted : s.spool.halted = true) (empty : queued s = []) (reached : run (step e) s acts = some t)
    (quiet : announced acts = false) : terminals t.spool.disk = terminals s.spool.disk := by
  have kept : announced acts = false → t.spool.halted = true ∧ queued t = [] ∧
      terminals t.spool.disk = terminals s.spool.disk := by
    refine run_history (P := fun acts t => announced acts = false → t.spool.halted = true ∧ queued t = [] ∧
      terminals t.spool.disk = terminals s.spool.disk) (fun _ => ⟨halted, empty, rfl⟩) ?_ reached
    intro acts m act t before moved quiet
    rw [announced_concat, Bool.or_eq_false_iff] at quiet
    obtain ⟨halted, empty, same⟩ := before quiet.1
    cases step_events moved with
    | @worked attempt stop op front written stopped _ =>
      rw [empty, List.nil_eq, List.append_eq_nil_iff] at front
      have on : haltReason e.marshal m.spool op attempt = none := by
        cases reason : haltReason e.marshal m.spool op attempt with
        | none => rfl
        | some reason => cases halted.symm.trans (apply_halts reason stop).1
      obtain ⟨still, own, grown, part⟩ := apply_goes_on on stop
      have nothing : own = [] := part.elim id fun whole => whole.trans front.1
      exact ⟨(stopped.trans still).trans halted, front.2, by rw [written, grown, nothing, List.append_nil, same]⟩
    | offered idle kept stopped grown =>
      have other := mt isAnnounce_iff.2 (Bool.eq_false_iff.1 quiet.2)
      rw [(added_terminals e m act).2 other, List.append_nil] at grown
      exact ⟨stopped.trans halted, grown.trans empty, by rw [kept, same]⟩
  exact (kept quiet).2.2

/-- The recorder halted for this reason at some data; `stop` is the outcome of writing its event. -/
def StoppedBy (e : Session) (start : Recorder) (acts : List Action) (reason : Bytes) (stop : Attempt) : Prop :=
  ∃ before attempt after m op, acts = before ++ Action.work attempt stop :: after ∧
    run (step e) start before = some m ∧ m.spool.ahead.head? = some op ∧
    haltReason e.marshal m.spool op attempt = some reason

theorem stopped_events {dir : Directory e} {stop : Attempt}
    (reached : run (step e) (newRecorder e dir maxBody maxSession) acts = some s) (quiet : announced acts = false)
    (stopped : StoppedBy e (newRecorder e dir maxBody maxSession) acts reason stop) :
    ∃ newer, terminals s.spool.disk = terminals dir.disk ++ newer ∧ (newer = [] ∨ newer = [stopPiece reason]) ∧
      (stop = .succeeds → newer = [stopPiece reason]) := by
  obtain ⟨before, attempt, after, m, op, rfl, first, front, halts⟩ := stopped
  rw [run_append, first, Option.bind_some, run_cons] at reached
  obtain ⟨t, moved, rest⟩ := Option.bind_eq_some_iff.1 reached
  have unsent : announced before = false ∧ announced after = false := by
    simpa [announced, isAnnounce, List.any_append] using quiet
  obtain ⟨older, disk, bounded⟩ := (run_ended first).events
  obtain ⟨running, halted, own, halt, grown, part, one, whole⟩ := apply_halts halts stop
  rw [running, unsent.1] at bounded
  obtain ⟨rfl, empty⟩ : older = [] ∧ queued m = [] := by simpa using bounded
  cases step_events moved with
  | @worked _ _ other left written halted' ahead =>
    cases front.symm.trans ahead
    rw [empty, List.nil_eq, List.append_eq_nil_iff] at left
    have nothing : own = [] := part.elim id fun carried => carried.trans left.1
    refine ⟨halt, ?_, one, whole⟩
    rw [halted_run (halted'.trans halted) left.2 rest unsent.2, written, grown, disk, nothing, List.append_nil,
      List.append_nil]
  | offered idle => exact absurd rfl (idle _ _)

theorem stopped_halted {start : Recorder} {stop : Attempt} (reached : run (step e) start acts = some s)
    (stopped : StoppedBy e start acts reason stop) : s.spool.halted = true := by
  obtain ⟨before, attempt, after, m, op, rfl, first, front, halts⟩ := stopped
  rw [run_append, first, Option.bind_some, run_cons] at reached
  obtain ⟨t, moved, rest⟩ := Option.bind_eq_some_iff.1 reached
  have halted : t.spool.halted = true := by
    cases step_events moved with
    | @worked _ _ other left written halted ahead =>
      cases front.symm.trans ahead
      exact halted.trans (apply_halts halts stop).2.1
    | offered idle => exact absurd rfl (idle _ _)
  refine run_invariant (I := fun t => t.spool.halted = true) halted (fun m act t halted moved => ?_) rest
  cases step_flags moved with
  | same flags | deactivated flags | raised flags => exact flags.2.1.trans halted
  | stopped _ flags => exact flags.2.1

def looked : Closer → Bool
  | .idle | .sweeping _ _ _ | .telling _ _ _ _ => false
  | _ => true

/-- No data halts the recorder once close has looked at its flag. -/
def Allowed (e : Session) (s : Recorder) : Action → Prop
  | .work attempt _ =>
    (s.spool.ahead.head?.bind fun op => haltReason e.marshal s.spool op attempt).isSome = true → looked s.closer = false
  | _ => True

instance decidableAllowed (e : Session) (s : Recorder) (act : Action) : Decidable (Allowed e s act) := by
  rcases act with _ | _ <;> unfold Allowed <;> infer_instance

structure Silent (s : Recorder) : Prop where
  halted : s.spool.halted = true
  inactive : s.spool.active = false
  unannounced : ∀ kind reason, s.closer ≠ .announcing kind reason

theorem step_silent (silent : Silent s) (moved : step e s act = some t) : Silent t ∧ act ≠ .announce := by
  obtain ⟨halted, inactive, unannounced⟩ := silent
  have flags : t.spool.halted = true ∧ t.spool.active = false := by
    cases step_flags moved with
    | same flags | raised flags => exact ⟨flags.2.1.trans halted, flags.1.trans inactive⟩
    | stopped _ flags => exact ⟨flags.2.1, flags.1⟩
    | deactivated flags => exact ⟨flags.2.1.trans halted, flags.1⟩
  suffices quiet : (∀ kind reason, t.closer ≠ .announcing kind reason) ∧ act ≠ .announce from
    ⟨⟨flags.1, flags.2, quiet.1⟩, quiet.2⟩
  cases step_move moved with
  | check => exact ⟨by simp [inactive], nofun⟩
  | announce stage => exact absurd stage (unannounced _ _)
  | sweep | snapshot | tell | deactivate | raise => exact ⟨nofun, nofun⟩
  | _ => exact ⟨unannounced, nofun⟩

theorem step_halts (allowed : Allowed e s act) (running : s.spool.halted = false)
    (moved : step e s act = some t) (halted : t.spool.halted = true) : Silent t ∧ looked s.closer = false := by
  cases step_events moved with
  | offered _ _ same => cases running.symm.trans (same.symm.trans halted)
  | @worked attempt stop op _ _ stopped ahead =>
    have halts : (haltReason e.marshal s.spool op attempt).isSome = true := by
      cases reason : haltReason e.marshal s.spool op attempt with
      | some reason => rfl
      | none => cases running.symm.trans ((apply_goes_on reason stop).1.symm.trans (stopped.symm.trans halted))
    have unlooked : looked s.closer = false := allowed (by rw [ahead]; exact halts)
    obtain ⟨next, _, rfl⟩ := Option.map_eq_some_iff.1 moved
    refine ⟨⟨halted, ?_, fun kind reason stage => ?_⟩, unlooked⟩
    · cases step_flags moved with
      | same flags => cases running.symm.trans (flags.2.1.symm.trans halted)
      | stopped _ flags => exact flags.1
    · change s.closer = _ at stage
      rw [stage] at unlooked
      cases unlooked

theorem run_silent {start : Recorder} (running : start.spool.halted = false)
    (along : Along (step e) (Allowed e) start acts) (reached : run (step e) start acts = some s) :
    (announced acts = true → past s.closer = true) ∧
      (s.spool.halted = true → Silent s ∧ announced acts = false) := by
  refine run_induct (P := fun acts s => (announced acts = true → past s.closer = true) ∧
    (s.spool.halted = true → Silent s ∧ announced acts = false)) ⟨nofun, fun halted => ?_⟩ ?_ along reached
  · cases running.symm.trans halted
  · rintro acts m act t _ ⟨told, silenced⟩ allowed moved
    refine ⟨(step_told told moved).1, fun halted => ?_⟩
    rw [announced_concat]
    cases before : m.spool.halted with
    | true =>
      obtain ⟨silent, quiet⟩ := silenced before
      obtain ⟨silent', other⟩ := step_silent silent moved
      exact ⟨silent', by rw [quiet, Bool.eq_false_iff.2 (mt isAnnounce_iff.1 other)]; rfl⟩
    | false =>
      obtain ⟨silent, unlooked⟩ := step_halts allowed before moved halted
      have unsent : announced acts = false := by
        refine Bool.eq_false_iff.2 fun sent => ?_
        have := told sent
        revert this unlooked
        cases m.closer <;> simp [looked, past]
      have other : act ≠ .announce := by
        rintro rfl
        cases step_flags moved with
        | same flags => cases before.symm.trans (flags.2.1.symm.trans halted)
      exact ⟨silent, by rw [unsent, Bool.eq_false_iff.2 (mt isAnnounce_iff.1 other)]; rfl⟩

theorem start_running (e : Session) (dir : Directory e) (maxBody maxSession : Int) :
    (newRecorder e dir maxBody maxSession).spool.halted = false := by
  simp [newRecorder, Spool.event, newSpool, (enqueue_same _ _ _).halted]

/-- If no data halts the recorder once close has looked at its flag, the recorder writes at most
    one terminal event; it is the size limit's when the limit stopped the recorder, and close
    has then sent none. -/
theorem terminal_event_once (e : Session) (dir : Directory e) (maxBody maxSession : Int) (acts : List Action)
    (s : Recorder) (along : Along (step e) (Allowed e) (newRecorder e dir maxBody maxSession) acts)
    (reached : run (step e) (newRecorder e dir maxBody maxSession) acts = some s) :
    (∃ newer, terminals s.spool.disk = terminals dir.disk ++ newer ∧ newer.length ≤ 1) ∧
      (s.spool.halted = true → announced acts = false) ∧
      ∀ stop, StoppedBy e (newRecorder e dir maxBody maxSession) acts (text "sizeLimit") stop →
        ∃ newer, terminals s.spool.disk = terminals dir.disk ++ newer ∧
          (newer = [] ∨ newer = [stopPiece (text "sizeLimit")]) ∧
          (stop = .succeeds → newer = [stopPiece (text "sizeLimit")]) := by
  have silenced := (run_silent (start_running e dir maxBody maxSession) along reached).2
  refine ⟨?_, fun halted => (silenced halted).2, fun stop stopped => ?_⟩
  · obtain ⟨newer, disk, bounded⟩ := (run_ended reached).events
    have room : s.spool.halted.toNat + (announced acts).toNat ≤ 1 := by
      cases halted : s.spool.halted with
      | true => simp [(silenced halted).2]
      | false => simpa using Bool.toNat_le _
    exact ⟨newer, disk, by omega⟩
  · exact stopped_events reached (silenced (stopped_halted reached stopped)).2 stopped

def crossingData : List Action := [Action.other (.packet (text "ab"))]

def closing : List Action := [Action.sweep .stop (text "user"), .check, .announce, .deactivate, .raise]

def quietly : List Action := [Action.sweep .stop (text "user"), .check, .deactivate, .raise]

def writing (n : Nat) : List Action := [Action.take] ++ List.replicate n (.work .succeeds .succeeds)

theorem limit_stop_alone :
    ∃ s newer,
      run (step plainSession) (newRecorder plainSession emptyDirectory 0 3) (crossingData ++ writing 2 ++ quietly) =
        some s ∧
      newer = [stopPiece (text "sizeLimit")] ∧ terminals s.spool.disk = terminals emptyDirectory.disk ++ newer := by
  obtain ⟨newer, disk, _, whole⟩ := (terminal_event_once plainSession emptyDirectory 0 3
    (crossingData ++ writing 2 ++ quietly) _ (by decide) rfl).2.2 .succeeds
    ⟨crossingData ++ writing 1, .succeeds, quietly, _, _, rfl, rfl, rfl, by decide⟩
  exact ⟨_, newer, rfl, whole rfl, disk⟩

/-- Close queues its event behind data that crosses the limit. -/
theorem two_terminal_events :
    ∃ s, run (step plainSession) (newRecorder plainSession emptyDirectory 0 3)
        (crossingData ++ closing ++ writing 3) = some s ∧
      terminals s.spool.disk = [stopPiece (text "sizeLimit"), .event (.stop .stop (text "user"))] :=
  ⟨_, rfl, by decide⟩

end Runs

end TerminalEvents
