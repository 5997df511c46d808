import RootShell.RecorderSystem
import Mathlib.Data.List.Nodup
import Mathlib.Data.List.Perm.Basic

/-!
How often a transaction is ended in the index: once by its own endTxOnce or once by the
sweep of the shutdown, unless the recorder starts refusing before either has happened.
-/
namespace TransactionEnds
open ByteLines ByteText RecorderQueue RecorderSystem Interleaving

section Counting
variable {e : Session} {s t : Recorder} {act : Action} {f : Piece → Bool}

theorem tx_id_injective (e : Session) : Function.Injective e.txID := by
  intro i j same
  have numbers : itoa (i + 1) = itoa (j + 1) := by simpa [Session.txID] using same
  simpa using itoa_injective numbers

structure Smooth (s : Recorder) (act : Action) : Prop where
  sound : act.Sound
  room : s.spool.queue.length < recorderMaxQueuedOps

def phaseOf (s : Recorder) (i : Nat) : Option TxPhase := s.txs[i]?.map Tx.phase

def toTell : Closer → List Bytes
  | .sweeping _ _ todo => todo.map Prod.fst
  | .telling _ _ todo ev => ev.id :: todo.map Prod.fst
  | _ => []

def startCount (s : Recorder) (id : Bytes) : Nat := (s.spool.flow indexFileName).countP (startsTx id)

def endCount (s : Recorder) (id : Bytes) : Nat := (s.spool.flow indexFileName).countP (endsTx id)

theorem index_accepts (ev : Event) (smooth : Smooth s act) :
    s.spool.Accepts e.marshal (indexOp ev) ↔ s.spool.closing = false := by
  have room := smooth.room
  simp only [Spool.Accepts, indexOp, RecOp.path, RecOp.droppable, ne_eq, not_true_eq_false, and_false, or_false,
    Bool.false_eq_true, false_and, Nat.not_le, room, and_true, Bool.not_eq_true]

theorem raw_piece_count (plain : ∀ data some, f (.raw data some) = false) (data : Bytes) :
    (rawPiece data).toList.countP f = 0 := by
  unfold rawPiece
  split
  · simp [plain]
  · rfl

theorem piece_for_count {op : RecOp} (p : Bytes) (nothing : op.data.toList.countP f = 0) :
    (pieceFor p op).toList.countP f = 0 := by
  unfold pieceFor
  split
  · exact nothing
  · rfl

theorem step_index {q : Event → Bool} (quiet : ∀ kind reason, q (.stop kind reason) = false)
    (plain : ∀ data some, f (.raw data some) = false) (events : ∀ ev, f (.event ev) = q ev)
    (moved : step e s act = some t) (smooth : Smooth s act) :
    (t.spool.flow indexFileName).countP f = (s.spool.flow indexFileName).countP f +
      if s.spool.closing then 0 else (eventOf e s act).toList.countP q := by
  rw [step_count (fun kind reason => (events _).trans (quiet kind reason)) moved smooth.sound]
  congr 1
  unfold added
  cases found : opOf e s act with
  | none => simp [silent_event found]
  | some op =>
    have bytes : eventOf e s act = none → op.data.toList.countP f = 0 →
        ((some op).elim [] fun op => if s.spool.Accepts e.marshal op then (pieceFor indexFileName op).toList
          else []).countP f = if s.spool.closing then 0 else (eventOf e s act).toList.countP q := by
      intro none nothing
      simp only [none, Option.elim_some, Option.toList_none, List.countP_nil, ite_self]
      split
      · exact piece_for_count indexFileName nothing
      · rfl
    cases op_offer found with
    | @index _ ev told =>
      have taken := index_accepts (e := e) ev smooth
      have here : pieceFor indexFileName (indexOp ev) = some (.event ev) := if_pos rfl
      cases closing : s.spool.closing with
      | false => simp [taken, closing, here, told, events, List.countP_cons]
      | true => simp [taken, closing]
    | body => exact bytes rfl (raw_piece_count plain _)
    | closed => exact bytes rfl rfl
    | @other o silent =>
      refine bytes silent ?_
      cases o with
      | packet | keylog | frame => exact raw_piece_count plain _
      | event line => cases silent

def endsEvent (id : Bytes) : Event → Bool
  | .txEnd ev => ev.id = id
  | _ => false

def startsEvent (id : Bytes) : Event → Bool
  | .txStart other => other = id
  | _ => false

theorem end_count_step (moved : step e s act = some t) (smooth : Smooth s act) (id : Bytes) :
    endCount t id = endCount s id + if s.spool.closing then 0 else (eventOf e s act).toList.countP (endsEvent id) :=
  step_index (fun _ _ => rfl) (fun _ _ => rfl) (fun ev => by cases ev <;> rfl) moved smooth

theorem start_count_step (moved : step e s act = some t) (smooth : Smooth s act) (id : Bytes) :
    startCount t id = startCount s id +
      if s.spool.closing then 0 else (eventOf e s act).toList.countP (startsEvent id) :=
  step_index (fun _ _ => rfl) (fun _ _ => rfl) (fun ev => by cases ev <;> rfl) moved smooth

end Counting

section Balance
variable {e : Session} {s t : Recorder} {act : Action} {i : Nat} {tx : Tx} {pending : List (Bytes × PendingTx)}
  {ev : EvTxEnd}

structure Balance (e : Session) (s : Recorder) : Prop where
  keys : (s.pending.map Prod.fst).Nodup
  shut : s.spool.closing = true ↔ s.closer = .closed
  early : s.closer = .idle → s.swept = []
  lock : ∀ i ev, phaseOf s i = some (.ending ev) → s.txMu = true ∧ ev.id = e.txID i ∧ e.txID i ∉ s.swept
  alone : ∀ i j ev ev', phaseOf s i = some (.ending ev) → phaseOf s j = some (.ending ev') → i = j
  gone : ∀ i, phaseOf s i ≠ some .running → e.txID i ∉ s.pending.map Prod.fst ∨ e.txID i ∈ s.swept
  swept : ∀ i, e.txID i ∈ s.swept → endCount s (e.txID i) + (toTell s.closer).count (e.txID i) = 1
  claimed : ∀ i, e.txID i ∉ s.swept → (toTell s.closer).count (e.txID i) = 0
  unended : ∀ i, e.txID i ∉ s.swept → phaseOf s i ≠ some .finished → endCount s (e.txID i) = 0
  finished : ∀ i, e.txID i ∉ s.swept → phaseOf s i = some .finished → s.spool.closing = false →
    endCount s (e.txID i) = 1

theorem phase_of_set {tx' : Tx} (live : s.txs[i]? = some tx) (j : Nat) :
    (s.txs.set i tx')[j]?.map Tx.phase = if j = i then some tx'.phase else phaseOf s j := by
  obtain ⟨inside, -⟩ := List.getElem?_eq_some_iff.1 live
  by_cases target : i = j
  · subst target
    simp [inside]
  · have apart : j ≠ i := fun same => target same.symm
    simp [phaseOf, List.getElem?_set_ne target, apart]

theorem phase_of_same {tx' : Tx} (live : s.txs[i]? = some tx) (same : tx'.phase = tx.phase) (j : Nat) :
    (s.txs.set i tx')[j]?.map Tx.phase = phaseOf s j := by
  rw [phase_of_set live]
  split
  · rename_i here
    simp [phaseOf, here, live, same]
  · rfl

theorem open_tx_keys (pending : List (Bytes × PendingTx)) (id : Bytes) (f : PendingTx → PendingTx) :
    (openTx pending id f).map Prod.fst =
      if id ∈ pending.map Prod.fst then pending.map Prod.fst else pending.map Prod.fst ++ [id] := by
  unfold openTx
  split
  · rw [List.map_map]
    refine List.map_congr_left fun t _ => ?_
    dsimp only [Function.comp_apply]
    split <;> rfl
  · simp

theorem open_tx_mem {id other : Bytes} {f : PendingTx → PendingTx}
    (member : other ∈ (openTx pending id f).map Prod.fst) : other ∈ pending.map Prod.fst ∨ other = id := by
  rw [open_tx_keys] at member
  split at member
  · exact .inl member
  · simpa using member

theorem open_tx_nodup (id : Bytes) (f : PendingTx → PendingTx)
    (keys : (pending.map Prod.fst).Nodup) : ((openTx pending id f).map Prod.fst).Nodup := by
  rw [open_tx_keys]
  split
  · exact keys
  · rename_i fresh
    rw [List.nodup_append]
    refine ⟨keys, by simp, fun other member last same => ?_⟩
    rintro rfl
    exact fresh (List.mem_singleton.1 same ▸ member)

structure SamePhases (s t : Recorder) : Prop where
  ending : ∀ j ev, phaseOf t j = some (.ending ev) → phaseOf s j = some (.ending ev)
  finished : ∀ j, phaseOf t j = some .finished ↔ phaseOf s j = some .finished
  idle : ∀ j, phaseOf t j ≠ some .running → phaseOf s j ≠ some .running

theorem same_phases (phases : ∀ j, phaseOf t j = phaseOf s j) : SamePhases s t :=
  ⟨fun j _ => by rw [phases j]; exact id, fun j => by rw [phases j], fun j => by rw [phases j]; exact id⟩

theorem next_phases (txs : t.txs = s.txs ++ [⟨none, none, false, .running⟩]) : SamePhases s t := by
  have cases : ∀ j, phaseOf t j = phaseOf s j ∨ (phaseOf s j = none ∧ phaseOf t j = some .running) := by
    intro j
    simp only [phaseOf, txs]
    rcases Nat.lt_trichotomy j s.txs.length with inside | rfl | outside
    · rw [List.getElem?_append_left inside]
      exact .inl rfl
    · exact .inr (by simp)
    · rw [List.getElem?_eq_none (by simp; omega), List.getElem?_eq_none (by omega)]
      exact .inl rfl
  refine ⟨fun j ev ending => ?_, fun j => ?_, fun j idle => ?_⟩
  all_goals rcases cases j with same | ⟨before, after⟩
  · exact same ▸ ending
  · rw [after] at ending
    cases ending
  · rw [same]
  · simp [before, after]
  · exact same ▸ idle
  · exact absurd after idle

theorem balance_frame (balance : Balance e s) (phases : SamePhases s t) (lock : t.txMu = s.txMu)
    (pending : t.pending.map Prod.fst = s.pending.map Prod.fst) (swept : t.swept = s.swept)
    (closer : t.closer = s.closer) (closing : t.spool.closing = s.spool.closing)
    (ends : ∀ id, endCount t id = endCount s id) : Balance e t where
  keys := pending ▸ balance.keys
  shut := by rw [closing, closer]; exact balance.shut
  early := by rw [closer, swept]; exact balance.early
  lock i ev ending := by rw [lock, swept]; exact balance.lock i ev (phases.ending i ev ending)
  alone i j ev ev' one two := balance.alone i j ev ev' (phases.ending i ev one) (phases.ending j ev' two)
  gone i idle := by rw [pending, swept]; exact balance.gone i (phases.idle i idle)
  swept i := by rw [swept, ends, closer]; exact balance.swept i
  claimed i := by rw [swept, closer]; exact balance.claimed i
  unended i unswept running := by
    rw [ends]
    exact balance.unended i (swept ▸ unswept) fun finished => running ((phases.finished i).2 finished)
  finished i unswept finished running := by
    rw [ends]
    exact balance.finished i (swept ▸ unswept) ((phases.finished i).1 finished) (closing ▸ running)

theorem end_count_other (moved : step e s act = some t) (smooth : Smooth s act)
    (silent : ∀ ev, eventOf e s act ≠ some (.txEnd ev)) (id : Bytes) : endCount t id = endCount s id := by
  rw [end_count_step moved smooth]
  have none : (eventOf e s act).toList.countP (endsEvent id) = 0 := by
    cases told : eventOf e s act with
    | none => rfl
    | some ev =>
      cases ev with
      | txEnd ev => exact absurd told (silent ev)
      | _ => rfl
  rw [none, ite_self, Nat.add_zero]

theorem end_count_told (moved : step e s act = some t) (smooth : Smooth s act)
    (told : eventOf e s act = some (.txEnd ev)) (id : Bytes) :
    endCount t id = endCount s id + if s.spool.closing = false ∧ ev.id = id then 1 else 0 := by
  rw [end_count_step moved smooth, told]
  cases closing : s.spool.closing with
  | true => simp
  | false => simp [endsEvent, List.countP_cons]

theorem balance_register (balance : Balance e s) {f : PendingTx → PendingTx} (running : phaseOf s i = some .running)
    (phases : SamePhases s t) (lock : t.txMu = s.txMu) (pending : t.pending = openTx s.pending (e.txID i) f)
    (swept : t.swept = s.swept) (closer : t.closer = s.closer) (closing : t.spool.closing = s.spool.closing)
    (ends : ∀ id, endCount t id = endCount s id) : Balance e t := by
  have same : Balance e { t with pending := s.pending } :=
    balance_frame balance ⟨phases.ending, phases.finished, phases.idle⟩ lock rfl swept closer closing ends
  refine { same with
    keys := by rw [pending]; exact open_tx_nodup _ _ balance.keys
    gone := fun j idle => ?_ }
  rw [pending, swept]
  have before := phases.idle j idle
  rcases balance.gone j before with absent | done
  · refine .inl fun member => ?_
    rcases open_tx_mem member with old | new
    · exact absent old
    · cases tx_id_injective e new
      exact before running
  · exact .inr done

theorem balance_drop (balance : Balance e s) (live : s.txs[i]? = some tx)
    (swept : e.txID i ∈ s.swept) : Balance e { s with txs := s.txs.set i { tx with phase := .finished } } := by
  have phases : ∀ j, phaseOf { s with txs := s.txs.set i { tx with phase := .finished } } j =
      if j = i then some .finished else phaseOf s j := fun j => phase_of_set live j
  have apart : ∀ j, e.txID j ∉ s.swept → j ≠ i := by
    rintro j unswept rfl
    exact unswept swept
  refine { balance with lock := fun j ev ending => ?_, alone := fun j k ev ev' one two => ?_,
                        gone := fun j idle => ?_, unended := fun j unswept running => ?_,
                        finished := fun j unswept finished => ?_ }
  · rw [phases] at ending
    split at ending
    · cases ending
    · exact balance.lock j ev ending
  · rw [phases] at one two
    split at one
    · cases one
    · split at two
      · cases two
      · exact balance.alone j k ev ev' one two
  · rw [phases] at idle
    split at idle
    · rename_i here
      exact .inr (here ▸ swept)
    · exact balance.gone j idle
  · rw [phases, if_neg (apart j unswept)] at running
    exact balance.unended j unswept running
  · rw [phases, if_neg (apart j unswept)] at finished
    exact balance.finished j unswept finished

theorem balance_claim (balance : Balance e s) (live : s.txs[i]? = some tx)
    (running : tx.phase = .running) (named : ev.id = e.txID i) (unlocked : s.txMu = false)
    (unswept : e.txID i ∉ s.swept) : Balance e (s.claim e i ev tx) := by
  have phases : ∀ j, phaseOf (s.claim e i ev tx) j = if j = i then some (.ending ev) else phaseOf s j :=
    fun j => phase_of_set live j
  have free : ∀ j ev, phaseOf s j ≠ some (.ending ev) := by
    intro j ev ending
    rw [(balance.lock j ev ending).1] at unlocked
    cases unlocked
  have target : ∀ j ev', phaseOf (s.claim e i ev tx) j = some (.ending ev') → j = i ∧ ev' = ev := by
    intro j ev' ending
    rw [phases] at ending
    split at ending
    · rename_i here
      cases ending
      exact ⟨here, rfl⟩
    · exact absurd ending (free j ev')
  have filtered : ((s.claim e i ev tx).pending.map Prod.fst).Sublist (s.pending.map Prod.fst) :=
    List.Sublist.map _ List.filter_sublist
  refine { balance with keys := balance.keys.sublist filtered, lock := fun j ev' ending => ?_,
                        alone := fun j k ev' ev'' one two => ?_, gone := fun j idle => ?_,
                        unended := fun j unswept' idle => ?_, finished := fun j unswept' finished => ?_ }
  · obtain ⟨rfl, rfl⟩ := target j ev' ending
    exact ⟨rfl, named, unswept⟩
  · rw [(target j ev' one).1, (target k ev'' two).1]
  · rw [phases] at idle
    split at idle
    · rename_i here
      subst here
      refine .inl fun member => ?_
      obtain ⟨entry, kept, same⟩ := List.mem_map.1 member
      exact absurd same (by simpa using (List.mem_filter.1 kept).2)
    · exact (balance.gone j idle).imp (fun absent member => absent (filtered.subset member)) id
  · by_cases here : j = i
    · subst here
      exact balance.unended j unswept (by simp [phaseOf, live, running])
    · rw [phases, if_neg here] at idle
      exact balance.unended j unswept' idle
  · rw [phases] at finished
    split at finished
    · cases finished
    · exact balance.finished j unswept' finished

theorem balance_report (balance : Balance e s) (live : s.txs[i]? = some tx)
    (ending : tx.phase = .ending ev) (closing : (s.report e i ev tx).spool.closing = s.spool.closing)
    (ends : ∀ id, endCount (s.report e i ev tx) id =
      endCount s id + if s.spool.closing = false ∧ ev.id = id then 1 else 0) : Balance e (s.report e i ev tx) := by
  have phases : ∀ j, phaseOf (s.report e i ev tx) j = if j = i then some .finished else phaseOf s j :=
    fun j => phase_of_set live j
  have here : phaseOf s i = some (.ending ev) := by simp [phaseOf, live, ending]
  obtain ⟨-, named, unswept⟩ := balance.lock i ev here
  have free : ∀ j ev', phaseOf (s.report e i ev tx) j ≠ some (.ending ev') := by
    intro j ev' ending'
    rw [phases] at ending'
    split at ending'
    · cases ending'
    · rename_i apart
      exact apart (balance.alone j i ev' ev ending' here)
  have other : ∀ j, j ≠ i → endCount (s.report e i ev tx) (e.txID j) = endCount s (e.txID j) := by
    intro j apart
    have names : ev.id ≠ e.txID j := fun same => apart (tx_id_injective e (same.symm.trans named))
    simp [ends, names]
  have apart : ∀ j, e.txID j ∈ s.swept → j ≠ i := by
    rintro j swept rfl
    exact unswept swept
  refine { balance with shut := closing ▸ balance.shut, lock := fun j ev' now => absurd now (free j ev'),
                        alone := fun j _ ev' _ now => absurd now (free j ev'), gone := fun j idle => ?_,
                        swept := fun j swept => ?_, unended := fun j unswept' idle => ?_,
                        finished := fun j unswept' finished running => ?_ }
  · by_cases target : j = i
    · subst target
      exact balance.gone j (by simp [here])
    · rw [phases, if_neg target] at idle
      exact balance.gone j idle
  · rw [other j (apart j swept)]
    exact balance.swept j swept
  · rw [phases] at idle
    split at idle
    · exact absurd rfl idle
    · rename_i target
      rw [other j target]
      exact balance.unended j unswept' idle
  · rw [closing] at running
    by_cases target : j = i
    · subst target
      rw [ends, balance.unended j unswept (by simp [here])]
      simp [running, named]
    · rw [phases, if_neg target] at finished
      rw [other j target]
      exact balance.finished j unswept' finished running

theorem balance_sweep (balance : Balance e s) {kind : StopKind} {reason : Bytes} (stage : s.closer = .idle)
    (unlocked : s.txMu = false) : Balance e (s.sweep kind reason) := by
  have none : s.swept = [] := balance.early stage
  have claims : (s.sweep kind reason).swept = s.pending.map Prod.fst := by simp [Recorder.sweep, none]
  have unswept : ∀ id, id ∉ s.swept := by simp [none]
  have running : ∀ i, e.txID i ∈ s.pending.map Prod.fst → phaseOf s i = some .running := by
    intro i member
    by_contra idle
    rcases balance.gone i idle with absent | done
    · exact absent member
    · exact unswept _ done
  refine { balance with keys := List.nodup_nil, shut := ?_, early := fun idle => (by cases idle),
                        lock := fun j ev ending => ?_, gone := fun j idle => .inl (by simp [Recorder.sweep]),
                        swept := fun j swept => ?_, claimed := fun j absent => ?_,
                        unended := fun j _ => balance.unended j (unswept _),
                        finished := fun j _ => balance.finished j (unswept _) }
  · have before := balance.shut
    rw [stage] at before
    exact ⟨fun closing => Closer.noConfusion (before.1 closing), fun closed => Closer.noConfusion closed⟩
  · have locked := (balance.lock j ev ending).1
    rw [unlocked] at locked
    cases locked
  · rw [claims] at swept
    have zero := balance.unended j (unswept _) (by simp [running j swept])
    have once : (s.pending.map Prod.fst).count (e.txID j) = 1 := List.count_eq_one_of_mem balance.keys swept
    exact (congrArg₂ (· + ·) zero once)
  · rw [claims] at absent
    exact List.count_eq_zero_of_not_mem absent

theorem balance_closer (balance : Balance e s) (phases : SamePhases s t) (lock : t.txMu = s.txMu)
    (pending : t.pending = s.pending) (swept : t.swept = s.swept) (closing : t.spool.closing = s.spool.closing)
    (busy : s.closer ≠ .idle ∧ s.closer ≠ .closed) (busy' : t.closer ≠ .idle ∧ t.closer ≠ .closed)
    (ends : ∀ id, endCount t id + (toTell t.closer).count id = endCount s id + (toTell s.closer).count id)
    (less : ∀ id, (toTell s.closer).count id = 0 → (toTell t.closer).count id = 0) : Balance e t := by
  have same : ∀ i, e.txID i ∉ s.swept → endCount t (e.txID i) = endCount s (e.txID i) := by
    intro i unswept
    have before := balance.claimed i unswept
    have after := less _ before
    have total := ends (e.txID i)
    omega
  constructor
  case keys => exact pending ▸ balance.keys
  case shut =>
    rw [closing]
    exact ⟨fun closed => absurd (balance.shut.1 closed) busy.2, fun closed => absurd closed busy'.2⟩
  case early => exact fun idle => absurd idle busy'.1
  case lock =>
    intro i ev ending
    rw [lock, swept]
    exact balance.lock i ev (phases.ending i ev ending)
  case alone => exact fun i j ev ev' one two =>
    balance.alone i j ev ev' (phases.ending i ev one) (phases.ending j ev' two)
  case gone =>
    intro i idle
    rw [pending, swept]
    exact balance.gone i (phases.idle i idle)
  case swept =>
    intro i done
    rw [ends]
    exact balance.swept i (swept ▸ done)
  case claimed => exact fun i unswept => less _ (balance.claimed i (swept ▸ unswept))
  case unended =>
    intro i unswept running
    rw [same i (swept ▸ unswept)]
    exact balance.unended i (swept ▸ unswept) fun finished => running ((phases.finished i).2 finished)
  case finished =>
    intro i unswept finished running
    rw [same i (swept ▸ unswept)]
    exact balance.finished i (swept ▸ unswept) ((phases.finished i).1 finished) (closing ▸ running)

theorem balance_advance (balance : Balance e s) (phases : SamePhases s t) (lock : t.txMu = s.txMu)
    (pending : t.pending = s.pending) (swept : t.swept = s.swept) (closing : t.spool.closing = s.spool.closing)
    (busy : s.closer ≠ .idle ∧ s.closer ≠ .closed) (busy' : t.closer ≠ .idle ∧ t.closer ≠ .closed)
    (told : toTell s.closer = []) (told' : toTell t.closer = [])
    (ends : ∀ id, endCount t id = endCount s id) : Balance e t := by
  refine balance_closer balance phases lock pending swept closing busy busy' (fun id => ?_) fun id _ => ?_
  · rw [ends id, told, told']
  · rw [told']
    rfl

theorem balance_raise (balance : Balance e s) (stage : s.closer = .raising) :
    Balance e { s with spool := { s.spool with closing := true }, closer := .closed } := by
  have swept := balance.swept
  rw [stage] at swept
  exact { balance with shut := ⟨fun _ => rfl, fun _ => rfl⟩, early := fun idle => (by cases idle), swept := swept,
                       claimed := fun _ _ => rfl, finished := fun _ _ _ closed => (by cases closed) }

theorem step_balance (balance : Balance e s) (moved : step e s act = some t) (smooth : Smooth s act) :
    Balance e t := by
  have still : ∀ r : Recorder, r.txs = s.txs → SamePhases s r := fun r txs =>
    same_phases fun j => by simp only [phaseOf, txs]
  have closing := step_closing moved
  have quiet := end_count_other moved smooth
  cases step_move moved with
  | configure | write | finish | take | work | rest | txResponse =>
    exact balance_frame balance (still _ rfl) rfl rfl rfl rfl (closing (by simp)) (quiet (by simp [eventOf]))
  | other o =>
    have silent : ∀ ev, eventOf e s (.other o) ≠ some (.txEnd ev) := by cases o <;> simp [eventOf]
    exact balance_frame balance (still _ rfl) rfl rfl rfl rfl (closing (by simp)) (quiet silent)
  | nextTxID =>
    exact balance_frame balance (next_phases rfl) rfl rfl rfl rfl (closing (by simp)) (quiet (by simp [eventOf]))
  | @txStart i tx live =>
    have phases : ∀ j, phaseOf (s.start e i tx) j = phaseOf s j :=
      phase_of_same live (show { tx with started := true }.phase = tx.phase from rfl)
    exact balance_frame balance (same_phases phases) rfl rfl rfl rfl (closing (by simp)) (quiet (by simp [eventOf]))
  | @newBodySink i ext tx live phase =>
    have running : phaseOf s i = some .running := by simp [phaseOf, live, phase]
    have phases : ∀ j, phaseOf (s.addSink e i ext tx) j = phaseOf s j :=
      phase_of_same live (show (tx.setSink _ ext).phase = tx.phase by cases ext <;> rfl)
    exact balance_register (f := fun t => t.setSink s.sinks.length ext) balance running (same_phases phases) rfl rfl
      rfl rfl (closing (by simp))
      (quiet (by simp [eventOf]))
  | @markWebSocket i tx live phase =>
    have running : phaseOf s i = some .running := by simp [phaseOf, live, phase]
    exact balance_register (f := fun t => { t with ws := true }) balance running (still _ rfl) rfl rfl rfl rfl
      (closing (by simp)) (quiet (by simp [eventOf]))
  | dropped live _ swept => exact balance_drop balance live swept
  | claimed live phase _ named unlocked unswept => exact balance_claim balance live phase named unlocked unswept
  | report live phase =>
    exact balance_report balance live phase (closing (by simp))
      (end_count_told moved smooth (by simp [eventOf, live, phase]))
  | sweep stage unlocked => exact balance_sweep balance stage unlocked
  | @snapshot j kind reason todo entry stage chosen =>
    have same : ∀ id, (entry.1 :: (todo.eraseIdx j).map Prod.fst).count id = (todo.map Prod.fst).count id := by
      intro id
      obtain ⟨inside, rfl⟩ := List.getElem?_eq_some_iff.1 chosen
      exact ((List.getElem_cons_eraseIdx_perm inside).map Prod.fst).count_eq id
    refine balance_closer balance (still _ rfl) rfl rfl rfl (closing (by simp)) ?_ ?_ (fun id => ?_) fun id => ?_
    · simp [stage]
    · simp
    · rw [quiet (by simp [eventOf]), stage]
      exact congrArg _ (same id)
    · rw [stage]
      exact fun none => (same id).trans none
  | @tell kind reason todo ev stage =>
    have open_ : s.spool.closing = false := by
      cases closed : s.spool.closing with
      | false => rfl
      | true => simp [balance.shut.1 closed] at stage
    refine balance_closer balance (still _ rfl) rfl rfl rfl (closing (by simp)) ?_ ?_ (fun id => ?_) fun id => ?_
    · simp [stage]
    · simp
    · have told : eventOf e s .tell = some (.txEnd ev) := by simp [eventOf, stage]
      rw [end_count_told moved smooth told, stage]
      simp only [toTell, open_, true_and, List.count_cons, beq_iff_eq]
      omega
    · rw [stage]
      simp only [toTell, List.count_cons]
      omega
  | check stage =>
    refine balance_advance balance (still _ rfl) rfl rfl rfl (closing (by simp)) (by simp [stage]) ?_
      (by rw [stage]; rfl) ?_ (quiet (by simp [eventOf]))
    · dsimp only
      split <;> simp
    · dsimp only
      split <;> rfl
  | announce stage =>
    exact balance_advance balance (still _ rfl) rfl rfl rfl (closing (by simp)) (by simp [stage]) (by simp)
      (by rw [stage]; rfl) rfl (quiet (by simp [eventOf, stage]))
  | deactivate stage =>
    exact balance_advance balance (still _ rfl) rfl rfl rfl (closing (by simp)) (by simp [stage]) (by simp)
      (by rw [stage]; rfl) rfl (quiet (by simp [eventOf]))
  | raise stage => exact balance_raise balance stage

theorem balance_start (dir : Directory e) (maxBody maxSession : Int) :
    Balance e (newRecorder e dir maxBody maxSession) := by
  have zero : ∀ i, endCount (newRecorder e dir maxBody maxSession) (e.txID i) = 0 := by
    intro i
    change (((newSpool e dir maxSession).enqueue e.marshal (indexOp (.segment e.nonce))).flow
      indexFileName).countP _ = 0
    rw [enqueue_flow, new_spool_flow, List.countP_append, dir.ends]
    split <;> rfl
  have shut : (newRecorder e dir maxBody maxSession).spool.closing = false :=
    (enqueue_same e.marshal (newSpool e dir maxSession) _).closing
  constructor
  case keys => exact List.nodup_nil
  case shut => exact ⟨fun closed => absurd closed (by simp [shut]), fun closed => by cases closed⟩
  case early => exact fun _ => rfl
  case lock => exact fun i ev ending => by cases ending
  case alone => exact fun i j ev ev' ending => by cases ending
  case gone => exact fun i _ => .inl (by simp [newRecorder])
  case swept => exact fun i swept => by cases swept
  case claimed => exact fun _ _ => rfl
  case unended => exact fun i _ _ => zero i
  case finished => exact fun i _ finished => by cases finished

end Balance

section Winding
variable {e : Session} {s t : Recorder} {act : Action}

structure Winding (s : Spool) : Prop where
  batch : ∀ ops, s.writer = .working ops true → s.closing = true
  drain : ∀ ops, s.writer = .draining ops → s.closing = true ∧ s.queue = []
  done : s.writer = .done → s.closing = true ∧ s.queue = []

theorem closing_stays (moved : step e s act = some t) (closing : s.spool.closing = true) :
    t.spool.closing = true := by
  by_cases raise : act = .raise
  · subst raise
    cases step_move moved
    rfl
  · rw [step_closing moved raise, closing]

theorem work_winding {m : Event → Bytes} {r next : Spool} {attempt stop : Attempt} (winding : Winding r)
    (did : r.work m attempt stop = some next) : Winding next := by
  unfold Spool.work at did
  split at did
  · rename_i op ops closing busy
    cases did
    have same := apply_same m r op attempt stop
    refine ⟨?_, by simp, by simp⟩
    rintro rest ⟨⟩
    exact same.closing.trans (winding.batch _ busy)
  · rename_i op ops busy
    cases did
    have same := apply_same m r op attempt stop
    obtain ⟨closing, queue⟩ := winding.drain _ busy
    exact ⟨by simp, fun _ _ => ⟨same.closing.trans closing, same.queue.trans queue⟩, by simp⟩
  · cases did

theorem rest_winding {r next : Spool} (winding : Winding r) (did : r.rest = some next) : Winding next := by
  unfold Spool.rest at did
  split at did
  · cases did
    exact ⟨by simp, by simp, by simp⟩
  · rename_i busy
    cases did
    exact ⟨by simp, fun _ _ => ⟨winding.batch _ busy, rfl⟩, by simp⟩
  · rename_i busy
    cases did
    exact ⟨by simp, by simp, fun _ => winding.drain _ busy⟩
  · cases did

theorem enqueue_closing {m : Event → Bytes} {r : Spool} {op : RecOp} (closing : r.closing = true) :
    (r.enqueue m op).queue = r.queue := by
  rw [enqueue_queue, if_neg (by simp [Spool.Accepts, closing]), List.append_nil]

theorem step_winding (winding : Winding s.spool) (moved : step e s act = some t) : Winding t.spool := by
  have stays := closing_stays moved
  have move := step_spool moved
  generalize t.spool = next at move stays ⊢
  cases move with
  | flags same silent =>
    refine ⟨fun ops busy => ?_, fun ops busy => ?_, fun busy => ?_⟩
    · exact stays (winding.batch ops (same.writer.symm.trans busy))
    · obtain ⟨closing, queue⟩ := winding.drain ops (same.writer.symm.trans busy)
      exact ⟨stays closing, same.queue.trans queue⟩
    · obtain ⟨closing, queue⟩ := winding.done (same.writer.symm.trans busy)
      exact ⟨stays closing, same.queue.trans queue⟩
  | @offered _ op found =>
    have same := enqueue_same e.marshal s.spool op
    refine ⟨fun ops busy => ?_, fun ops busy => ?_, fun busy => ?_⟩
    · exact stays (winding.batch ops (same.writer.symm.trans busy))
    · obtain ⟨closing, queue⟩ := winding.drain ops (same.writer.symm.trans busy)
      exact ⟨stays closing, (enqueue_closing closing).trans queue⟩
    · obtain ⟨closing, queue⟩ := winding.done (same.writer.symm.trans busy)
      exact ⟨stays closing, (enqueue_closing closing).trans queue⟩
  | taken took =>
    unfold Spool.take at took
    split at took
    · cases took
      refine ⟨?_, by simp, by simp⟩
      rintro ops busy
      exact (Writer.working.inj busy).2
    · cases took
  | worked did => exact work_winding winding did
  | rested did => exact rest_winding winding did

theorem winding_start (dir : Directory e) (maxBody maxSession : Int) :
    Winding (newRecorder e dir maxBody maxSession).spool := by
  have waiting : (newRecorder e dir maxBody maxSession).spool.writer = .waiting :=
    (enqueue_same e.marshal (newSpool e dir maxSession) _).writer
  exact ⟨by simp [waiting], by simp [waiting], by simp [waiting]⟩

end Winding

section Ends
variable {e : Session} {s t : Recorder} {act : Action}

def indexOf (s : Recorder) : List Piece := s.spool.disk indexFileName

theorem closing_counts (moved : step e s act = some t) (smooth : Smooth s act) (closing : s.spool.closing = true)
    (id : Bytes) : startCount t id = startCount s id ∧ endCount t id = endCount s id := by
  rw [start_count_step moved smooth, end_count_step moved smooth, if_pos closing, if_pos closing]
  exact ⟨rfl, rfl⟩

theorem closing_run {bs : List Action} (smooth : Along (step e) Smooth s bs) (closing : s.spool.closing = true)
    (reached : run (step e) s bs = some t) (id : Bytes) :
    startCount t id = startCount s id ∧ endCount t id = endCount s id := by
  refine (run_induct (P := fun _ r => r.spool.closing = true ∧
    startCount r id = startCount s id ∧ endCount r id = endCount s id) ⟨closing, rfl, rfl⟩ ?_ smooth reached).2
  rintro _ r act r' _ ⟨shut, starts, ends⟩ here moved
  obtain ⟨starts', ends'⟩ := closing_counts moved here shut id
  exact ⟨closing_stays moved shut, starts'.trans starts, ends'.trans ends⟩

theorem done_flow (winding : Winding s.spool) (done : s.spool.writer = .done) :
    s.spool.flow indexFileName = indexOf s := by
  simp [Spool.flow, Spool.ahead, done, (winding.done done).2, Writer.ops, pieces, indexOf]

theorem started_iff {pieces : List Piece} {id : Bytes} :
    Piece.event (.txStart id) ∈ pieces ↔ pieces.countP (startsTx id) ≠ 0 := by
  rw [← Nat.pos_iff_ne_zero, List.countP_pos_iff]
  constructor
  · exact fun member => ⟨_, member, by simp [startsTx]⟩
  · rintro ⟨piece, member, starts⟩
    unfold startsTx at starts
    split at starts
    · exact of_decide_eq_true starts ▸ member
    · cases starts

/-- When the flag is about to be raised, a transaction has its one end exactly when it has been
    swept or has reported. -/
theorem raising_ends (balance : Balance e s) (stage : s.closer = .raising) (i : Nat) :
    endCount s (e.txID i) = 1 ↔ e.txID i ∈ s.swept ∨ phaseOf s i = some .finished := by
  have running : s.spool.closing = false := by
    cases closed : s.spool.closing with
    | false => rfl
    | true => simp [balance.shut.1 closed] at stage
  by_cases swept : e.txID i ∈ s.swept
  · have once := balance.swept i swept
    rw [stage] at once
    exact ⟨fun _ => .inl swept, fun _ => once⟩
  · by_cases finished : phaseOf s i = some .finished
    · exact ⟨fun _ => .inr finished, fun _ => balance.finished i swept finished running⟩
    · rw [balance.unended i swept finished]
      simp [swept, finished]

end Ends

/-- In every run whose queue has room and whose writes succeed, every transaction whose txStart is
    in the index has exactly one txEnd there in the end, if and only if, when the closing flag is
    raised, every transaction whose txStart was accepted has been swept or is through its
    endTxOnce. -/
theorem tx_end_once_iff (e : Session) (dir : Directory e) (maxBody maxSession : Int) (as bs : List Action)
    (s t u : Recorder) (smooth : Along (step e) Smooth (newRecorder e dir maxBody maxSession) (as ++ .raise :: bs))
    (before : run (step e) (newRecorder e dir maxBody maxSession) as = some s)
    (raised : step e s .raise = some t) (after : run (step e) t bs = some u) (done : u.spool.writer = .done) :
    (∀ i, .event (.txStart (e.txID i)) ∈ indexOf u → (indexOf u).countP (endsTx (e.txID i)) = 1) ↔
      ∀ i, .event (.txStart (e.txID i)) ∈ s.spool.flow indexFileName →
        e.txID i ∈ s.swept ∨ phaseOf s i = some .finished := by
  obtain ⟨first, later⟩ := along_append.1 smooth
  obtain ⟨here, last⟩ := later s before
  have balance : Balance e s :=
    run_induct (P := fun _ r => Balance e r) (balance_start dir maxBody maxSession)
      (fun _ _ _ _ _ held allowed moved => step_balance held moved allowed) first before
  have winding : Winding u.spool := by
    have keeps : ∀ r a r', Winding r.spool → step e r a = some r' → Winding r'.spool :=
      fun _ _ _ => step_winding
    have early : Winding s.spool :=
      run_invariant (I := fun r => Winding r.spool) (winding_start dir maxBody maxSession) keeps before
    exact run_invariant (I := fun r => Winding r.spool) (step_winding early raised) keeps after
  have stage : s.closer = .raising := by
    cases step_move raised with
    | raise stage => exact stage
  have shut : t.spool.closing = true := by
    cases step_move raised
    rfl
  have counts : ∀ i, startCount u (e.txID i) = startCount s (e.txID i) ∧
      endCount u (e.txID i) = endCount s (e.txID i) := by
    intro i
    obtain ⟨starts, ends⟩ := closing_run (last t raised) shut after (e.txID i)
    rw [starts, ends, start_count_step raised here, end_count_step raised here]
    simp [eventOf]
  refine forall_congr' fun i => ?_
  rw [started_iff, started_iff, ← done_flow winding done, ← raising_ends balance stage i, ← (counts i).2]
  change (startCount u (e.txID i) ≠ 0 → _) ↔ (startCount s (e.txID i) ≠ 0 → _)
  rw [(counts i).1]
  rfl

instance (s : Recorder) (act : Action) : Decidable (Smooth s act) :=
  decidable_of_iff (act.Sound ∧ s.spool.queue.length < recorderMaxQueuedOps)
    ⟨fun ⟨sound, room⟩ => ⟨sound, room⟩, fun ⟨sound, room⟩ => ⟨sound, room⟩⟩

def emptyRecorder : Recorder := newRecorder plainSession emptyDirectory (2 ^ 20) 0

def txEnd (i : Nat) : EvTxEnd := ⟨plainSession.txID i, 0, 0, [], [], false, false, [], false, []⟩

def lateStart : List Action :=
  [.nextTxID, .sweep .stop (text "user"), .newBodySink 0 .req, .txStart 0, .check, .announce, .deactivate]

def wind (n : Nat) : List Action :=
  [.take] ++ List.replicate n (.work .succeeds .succeeds) ++ [.rest, .rest]

theorem late_start_unended :
    ∃ u, run (step plainSession) emptyRecorder
        (lateStart ++ .raise :: ([.claim 0 (txEnd 0), .report 0] ++ wind 3)) = some u ∧
      Along (step plainSession) Smooth emptyRecorder
        (lateStart ++ .raise :: ([.claim 0 (txEnd 0), .report 0] ++ wind 3)) ∧
      u.spool.writer = .done ∧ .event (.txStart (plainSession.txID 0)) ∈ indexOf u ∧
      (indexOf u).countP (endsTx (plainSession.txID 0)) = 0 := by
  refine ⟨_, rfl, by decide +kernel, rfl, by decide +kernel, by decide +kernel⟩

def timelyEnds : List Action :=
  [.nextTxID, .nextTxID, .newBodySink 0 .req, .txStart 0, .newBodySink 1 .req, .txStart 1, .claim 0 (txEnd 0),
    .report 0, .sweep .stop (text "user"), .snapshot 0, .tell, .check, .announce, .deactivate]

theorem timely_ends_once :
    ∃ s u, run (step plainSession) emptyRecorder timelyEnds = some s ∧
      run (step plainSession) emptyRecorder (timelyEnds ++ .raise :: (.claim 1 (txEnd 1) :: wind 6)) = some u ∧
      (indexOf u).countP (endsTx (plainSession.txID 0)) = 1 ∧
      (indexOf u).countP (endsTx (plainSession.txID 1)) = 1 ∧
      ((∀ i, .event (.txStart (plainSession.txID i)) ∈ indexOf u →
        (indexOf u).countP (endsTx (plainSession.txID i)) = 1) ↔
        ∀ i, .event (.txStart (plainSession.txID i)) ∈ s.spool.flow indexFileName →
          plainSession.txID i ∈ s.swept ∨ phaseOf s i = some .finished) := by
  refine ⟨_, _, rfl, rfl, by decide +kernel, by decide +kernel, ?_⟩
  exact tx_end_once_iff plainSession emptyDirectory (2 ^ 20) 0 timelyEnds
    (.claim 1 (txEnd 1) :: wind 6) _ _ _ (by decide +kernel) rfl rfl rfl rfl

end TransactionEnds
