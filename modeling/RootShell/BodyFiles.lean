import RootShell.RecorderSystem

/-!
What a body sink leaves in its file: in every interleaving the file is the start of what
was written to the sink, and all of it when nothing was cut off, as long as no piece is
refused by the queue or discarded by the writer.
-/
namespace BodyFiles
open ByteLines ByteText RecorderQueue RecorderSystem Interleaving

variable {p seen : Bytes} {i a j b : Nat} {ext : Ext} {k : BodySink}

section Paths
variable (e : Session)

theorem rel_injective {ext' : Ext} (same : e.rel i ext = e.rel j ext') : i = j ∧ ext = ext' := by
  have lengths : ext.name.length = ext'.name.length := by cases ext <;> cases ext' <;> rfl
  obtain ⟨front, names⟩ := List.append_inj' same lengths
  refine ⟨?_, ?_⟩
  · have ids : e.txID i = e.txID j := by simpa using front
    have numbers : itoa (i + 1) = itoa (j + 1) := by simpa [Session.txID] using ids
    simpa using itoa_injective numbers
  · revert names
    cases ext <;> cases ext' <;> decide

theorem rel_apart {b : UInt8} (first : p.head? = some b) (other : b ≠ 98) : p ≠ e.rel i ext := by
  rintro rfl
  exact other (Option.some.inj first).symm

theorem index_apart (i : Nat) (ext : Ext) : indexFileName ≠ e.rel i ext :=
  rel_apart (b := 105) e rfl (by decide)

theorem other_apart (o : Other) (i : Nat) (ext : Ext) : o.op.path ≠ e.rel i ext := by
  cases o with
  | packet record => exact rel_apart (b := 112) e rfl (by decide)
  | keylog line => exact rel_apart (b := 107) e rfl (by decide)
  | frame id line => exact rel_apart (b := 119) e rfl (by decide)
  | event line => exact index_apart e i ext

end Paths

section Sinks
variable {e : Session} {s t : Recorder} {act : Action}

def sinkOf (s : Recorder) (i : Nat) (ext : Ext) : Option Nat := s.txs[i]?.bind fun tx => tx.sink ext

inductive SinkMove (e : Session) (s t : Recorder) : Action → Prop where
  | opened {i : Nat} {ext : Ext} (free : sinkOf s i ext = none)
      (sinks : t.sinks = s.sinks ++ [⟨e.rel i ext, s.maxBody, 0, 0, false⟩])
      (here : sinkOf t i ext = some s.sinks.length)
      (there : ∀ j x, (j, x) ≠ (i, ext) → sinkOf t j x = sinkOf s j x) : SinkMove e s t (.newBodySink i ext)
  | wrote {a : Nat} {p : Bytes} {k : BodySink} (found : s.sinks[a]? = some k)
      (sinks : t.sinks = s.sinks.set a (k.write p).1) (same : sinkOf t = sinkOf s) : SinkMove e s t (.write a p)
  | left {act : Action} (sinks : t.sinks = s.sinks) (same : sinkOf t = sinkOf s)
      (elsewhere : ∀ a p, act ≠ .write a p) : SinkMove e s t act

theorem sink_of_set {tx tx' : Tx} (live : s.txs[i]? = some tx) (same : tx'.sink = tx.sink) (j : Nat)
    (x : Ext) : ((s.txs.set i tx')[j]?.bind fun tx => tx.sink x) = sinkOf s j x := by
  obtain ⟨inside, here⟩ := List.getElem?_eq_some_iff.1 live
  by_cases target : i = j
  · subst target
    simp [sinkOf, inside, here, same]
  · simp [sinkOf, List.getElem?_set_ne target]

theorem set_sink_self (tx : Tx) (a : Nat) (ext : Ext) : (tx.setSink a ext).sink ext = some a := by
  cases ext <;> rfl

theorem set_sink_apart (tx : Tx) (a : Nat) {x : Ext} (other : x ≠ ext) : (tx.setSink a ext).sink x = tx.sink x := by
  cases ext <;> cases x <;> first | rfl | exact absurd rfl other

theorem add_sink_of {tx : Tx} (live : s.txs[i]? = some tx) (j : Nat) (x : Ext) :
    sinkOf (s.addSink e i ext tx) j x = if (j, x) = (i, ext) then some s.sinks.length else sinkOf s j x := by
  obtain ⟨inside, here⟩ := List.getElem?_eq_some_iff.1 live
  by_cases target : i = j
  · subst target
    by_cases same : x = ext
    · subst same
      simp [sinkOf, Recorder.addSink, inside, set_sink_self]
    · simp [sinkOf, Recorder.addSink, inside, here, set_sink_apart _ _ same, same]
  · have apart : j ≠ i := fun same => target same.symm
    simp [sinkOf, Recorder.addSink, List.getElem?_set_ne target, apart]

theorem next_tx_sink (txs : List Tx) (j : Nat) (x : Ext) :
    ((txs ++ [⟨none, none, false, .running⟩])[j]?.bind fun tx => tx.sink x) = txs[j]?.bind fun tx => tx.sink x := by
  rcases Nat.lt_trichotomy j txs.length with inside | rfl | outside
  · rw [List.getElem?_append_left inside]
  · cases x <;> simp [Tx.sink]
  · rw [List.getElem?_eq_none (by simp; omega), List.getElem?_eq_none (by omega)]

theorem step_sinks (moved : step e s act = some t) : SinkMove e s t act := by
  cases step_move moved with
  | newBodySink live phase free unlocked =>
    refine .opened (by simp [sinkOf, live, free]) rfl (by simp [add_sink_of live]) fun j x apart => ?_
    rw [add_sink_of live, if_neg apart]
  | write found => exact .wrote found rfl rfl
  | nextTxID => exact .left rfl (funext fun j => funext fun x => next_tx_sink s.txs j x) (by simp)
  | txStart live | dropped live | claimed live | report live =>
    exact .left rfl (funext fun j => funext fun x => sink_of_set live (by funext y; cases y <;> rfl) j x) (by simp)
  | configure | markWebSocket | txResponse | finish | other | sweep | snapshot | tell | check | announce
  | deactivate | raise | take | work | rest => exact .left rfl rfl (by simp)

end Sinks

section Ledger
variable {m : Event → Bytes}

structure Counted (k : BodySink) (seen : Bytes) : Prop where
  stored : k.stored = min k.max.toNat seen.length
  total : k.total = seen.length
  truncated : k.truncated = decide (k.max.toNat < seen.length)

theorem write_room (k : BodySink) (p : Bytes) :
    (k.write p).1 = { k with
        stored := k.stored + min p.length (k.max - k.stored).toNat
        total := k.total + p.length
        truncated := k.truncated || decide ((k.max - k.stored).toNat < p.length) } ∧
      (k.write p).2.getD [] = p.take (k.max - k.stored).toNat := by
  unfold BodySink.write
  dsimp only
  by_cases full : k.max - k.stored ≤ 0
  · have none : (k.max - k.stored).toNat = 0 := Int.toNat_of_nonpos full
    by_cases blank : p = []
    · simp [full, none, blank]
    · have some : 0 < p.length := List.length_pos_iff.2 blank
      simp [full, none, blank, some]
  · by_cases cut : k.max - k.stored < p.length
    · have short : (k.max - k.stored).toNat < p.length := by omega
      rw [if_neg full, if_pos cut, if_pos cut, Nat.min_eq_right (Nat.le_of_lt short), decide_eq_true short,
        Bool.or_true]
      exact ⟨rfl, rfl⟩
    · have fits : p.length ≤ (k.max - k.stored).toNat := by omega
      rw [if_neg full, if_neg cut, if_neg cut, Nat.min_eq_left fits, decide_eq_false (Nat.not_lt.2 fits),
        Bool.or_false, List.take_of_length_le fits]
      exact ⟨rfl, List.take_length⟩

theorem write_whole (room : 0 < k.max - k.stored) (fits : p.length ≤ k.max - k.stored) :
    k.write p = ({ k with stored := k.stored + p.length, total := k.total + p.length }, some p) := by
  unfold BodySink.write
  dsimp only
  rw [if_neg (Int.not_le.2 room), if_neg (Int.not_lt.2 fits), if_neg (Int.not_lt.2 fits), Int.toNat_natCast,
    List.take_length]

theorem counted_room (counted : Counted k seen) : (k.max - k.stored).toNat = k.max.toNat - seen.length := by
  have stored := counted.stored
  omega

theorem write_counted (counted : Counted k seen) (p : Bytes) : Counted (k.write p).1 (seen ++ p) := by
  have room := counted_room counted
  obtain ⟨stored, total, truncated⟩ := counted
  rw [(write_room k p).1]
  refine ⟨?_, ?_, ?_⟩
  · simp only [List.length_append]
    omega
  · simp [total]
  · rw [room, truncated, List.length_append, ← Bool.decide_or]
    refine decide_eq_decide.2 ?_
    dsimp only
    omega

theorem write_kept (counted : Counted k seen) (p : Bytes) :
    seen.take k.max.toNat ++ (k.write p).2.getD [] = (seen ++ p).take k.max.toNat := by
  rw [(write_room k p).2, counted_room counted, List.take_append]

theorem write_rel (k : BodySink) (p : Bytes) : (k.write p).1.rel = k.rel ∧ (k.write p).1.max = k.max := by
  rw [(write_room k p).1]
  exact ⟨rfl, rfl⟩

end Ledger

section Runs
variable {e : Session} {s t : Recorder} {act : Action}

def bytesOf (a : Nat) : Action → Bytes
  | .write b p => if b = a then p else []
  | _ => []

theorem bytes_of_other (elsewhere : ∀ a p, act ≠ .write a p) : bytesOf a act = [] := by
  cases act with
  | write b p => exact absurd rfl (elsewhere b p)
  | _ => rfl

def bytesTo (a : Nat) (as : List Action) : Bytes := as.flatMap (bytesOf a)

theorem bytes_to_append (a : Nat) (as bs : List Action) : bytesTo a (as ++ bs) = bytesTo a as ++ bytesTo a bs := by
  simp [bytesTo]

theorem drain_bytes (a n : Nat) : bytesTo a (drainActions n) = [] := by
  simp [bytesTo, drainActions, bytesOf]

def content (e : Session) (s : Recorder) (p : Bytes) : Bytes := (s.spool.disk p).flatMap (Piece.bytes e.marshal)

theorem get_concat {α : Type} {xs : List α} {x y : α} (found : (xs ++ [x])[a]? = some y) :
    xs[a]? = some y ∨ (a = xs.length ∧ y = x) := by
  rcases Nat.lt_trichotomy a xs.length with inside | rfl | outside
  · exact .inl (by rwa [List.getElem?_append_left inside] at found)
  · exact .inr ⟨rfl, by simpa using found.symm⟩
  · rw [List.getElem?_eq_none (by simp; omega)] at found
    cases found

theorem get_set {α : Type} {xs : List α} {x y : α} (found : (xs.set a x)[b]? = some y) :
    (b = a ∧ y = x) ∨ (b ≠ a ∧ xs[b]? = some y) := by
  by_cases target : a = b
  · subst target
    rw [List.getElem?_set_self'] at found
    exact .inl ⟨rfl, by simpa using (Option.map_eq_some_iff.1 found).choose_spec.2.symm⟩
  · exact .inr ⟨fun same => target same.symm, by rwa [List.getElem?_set_ne target] at found⟩

structure Books (e : Session) (s : Recorder) : Prop where
  owned : ∀ a k, s.sinks[a]? = some k → ∃ i ext, sinkOf s i ext = some a ∧ k.rel = e.rel i ext
  unused : ∀ i ext, sinkOf s i ext = none → s.spool.flow (e.rel i ext) = []

theorem other_op (i : Nat) (ext : Ext) {op : RecOp} (found : opOf e s act = some op)
    (elsewhere : ∀ a p, act ≠ .write a p) : pieceFor (e.rel i ext) op = none := by
  cases op_offer found with
  | index => exact if_neg (index_apart e i ext)
  | body => exact absurd rfl (elsewhere _ _)
  | closed => simp [pieceFor, RecOp.data]
  | other => exact if_neg (other_apart e _ i ext)

theorem other_added (i : Nat) (ext : Ext) (elsewhere : ∀ a p, act ≠ .write a p) :
    added e s act (e.rel i ext) = [] := by
  unfold added
  cases found : opOf e s act with
  | none => rfl
  | some op => simp [other_op i ext found elsewhere]

theorem write_added (found : s.sinks[a]? = some k) (q : Bytes) :
    added e s (.write a p) q = (k.write p).2.elim [] fun data =>
      if s.spool.Accepts e.marshal (.append k.rel (rawPiece data) true) ∧ k.rel = q then (rawPiece data).toList
      else [] := by
  unfold added
  cases kept : (k.write p).2 with
  | none => simp [opOf, found, kept]
  | some data =>
    simp only [opOf, found, kept, Option.bind_some, Option.map_some, Option.elim_some, pieceFor, RecOp.path,
      RecOp.data]
    by_cases taken : s.spool.Accepts e.marshal (.append k.rel (rawPiece data) true)
    · by_cases here : k.rel = q <;> simp [taken, here]
    · simp [taken]

theorem books_start (dir : Directory e) (maxBody maxSession : Int) :
    Books e (newRecorder e dir maxBody maxSession) := by
  refine ⟨by simp [newRecorder], fun i ext _ => ?_⟩
  have index : pieceFor (e.rel i ext) (indexOp (.segment e.nonce)) = none := if_neg (index_apart e i ext)
  change ((newSpool e dir maxSession).enqueue e.marshal (indexOp (.segment e.nonce))).flow (e.rel i ext) = []
  rw [enqueue_flow, new_spool_flow, dir.bodies, index]
  simp

theorem empty_flow_kept (blank : s.spool.flow p = []) : Kept s act p := by
  intro attempt stop op ops _ front some
  rw [Spool.flow, front] at blank
  have first := (List.append_eq_nil_iff.1 blank).2
  cases found : pieceFor p op with
  | none => exact absurd found some
  | some piece => simp [pieces, found] at first

theorem step_books (books : Books e s) (moved : step e s act = some t) (sound : act.Sound) : Books e t := by
  obtain ⟨owned, unused⟩ := books
  have flow : ∀ i ext, sinkOf s i ext = none →
      t.spool.flow (e.rel i ext) = added e s act (e.rel i ext) := by
    intro i ext free
    have blank := unused i ext free
    rw [step_flow moved sound (index_apart e i ext).symm (empty_flow_kept blank), blank, List.nil_append]
  cases step_sinks moved with
  | @opened i ext free sinks here there =>
    refine ⟨fun a k found => ?_, fun j x none => ?_⟩
    · rcases get_concat (sinks ▸ found) with old | ⟨rfl, rfl⟩
      · obtain ⟨j, x, mine, named⟩ := owned a k old
        have apart : (j, x) ≠ (i, ext) := by
          rintro ⟨⟩
          rw [free] at mine
          cases mine
        exact ⟨j, x, (there j x apart).trans mine, named⟩
      · exact ⟨i, ext, here, rfl⟩
    · have apart : (j, x) ≠ (i, ext) := by
        rintro ⟨⟩
        rw [here] at none
        cases none
      rw [flow j x ((there j x apart).symm.trans none), other_added j x (by simp)]
  | @wrote a p k found sinks same =>
    obtain ⟨i, ext, mine, named⟩ := owned a k found
    refine ⟨fun b k' found' => ?_, fun j x none => ?_⟩
    · rw [same]
      rcases get_set (sinks ▸ found') with ⟨rfl, rfl⟩ | ⟨-, old⟩
      · exact ⟨i, ext, mine, (write_rel k p).1.trans named⟩
      · exact owned b k' old
    · rw [same] at none
      rw [flow j x none, write_added found]
      have apart : k.rel ≠ e.rel j x := by
        intro shared
        obtain ⟨rfl, rfl⟩ := rel_injective e (named.symm.trans shared)
        rw [mine] at none
        cases none
      cases (k.write p).2 with
      | none => rfl
      | some data => simp [apart]
  | left sinks same elsewhere =>
    refine ⟨fun a k found => ?_, fun j x none => ?_⟩
    · rw [same]
      exact owned a k (sinks ▸ found)
    · rw [flow j x (same ▸ none), other_added j x elsewhere]

theorem books_distinct (books : Books e s) {k' : BodySink} (found : s.sinks[a]? = some k)
    (found' : s.sinks[b]? = some k') (other : a ≠ b) : k.rel ≠ k'.rel := by
  intro shared
  obtain ⟨i, ext, mine, named⟩ := books.owned a k found
  obtain ⟨j, x, theirs, named'⟩ := books.owned b k' found'
  obtain ⟨rfl, rfl⟩ := rel_injective e (named.symm.trans (shared.trans named'))
  exact other (Option.some.inj (mine.symm.trans theirs))

structure Lossless (e : Session) (a : Nat) (s : Recorder) (act : Action) : Prop where
  sound : act.Sound
  accepted : ∀ p k data, act = .write a p → s.sinks[a]? = some k → (k.write p).2 = some data → data ≠ [] →
    s.spool.Accepts e.marshal (.append k.rel (rawPiece data) true)
  kept : ∀ k, s.sinks[a]? = some k → Kept s act k.rel

structure Ledger (e : Session) (a : Nat) (seen : Bytes) (s : Recorder) : Prop where
  books : Books e s
  absent : s.sinks[a]? = none → seen = []
  counted : ∀ k, s.sinks[a]? = some k → Counted k seen
  flow : ∀ k, s.sinks[a]? = some k →
    (s.spool.flow k.rel).flatMap (Piece.bytes e.marshal) = seen.take k.max.toNat

theorem raw_piece_bytes (m : Event → Bytes) (data : Bytes) :
    (rawPiece data).toList.flatMap (Piece.bytes m) = data := by
  unfold rawPiece
  split
  · simp [Piece.bytes]
  · simp_all

theorem sink_flow (books : Books e s) (moved : step e s act = some t) (lossless : Lossless e a s act)
    (found : s.sinks[a]? = some k) (counted : Counted k seen)
    (before : (s.spool.flow k.rel).flatMap (Piece.bytes e.marshal) = seen.take k.max.toNat) :
    (t.spool.flow k.rel).flatMap (Piece.bytes e.marshal) = (seen ++ bytesOf a act).take k.max.toNat := by
  obtain ⟨i, ext, -, named⟩ := books.owned a k found
  have apart : k.rel ≠ indexFileName := fun same => index_apart e i ext (same.symm.trans named)
  rw [step_flow moved lossless.sound apart (lossless.kept k found), List.flatMap_append, before]
  cases step_sinks moved with
  | opened => simp [named, other_added i ext, bytesOf]
  | @wrote b p k' found' =>
    rw [write_added found']
    by_cases here : b = a
    · subst here
      obtain rfl : k = k' := Option.some.inj (found.symm.trans found')
      rw [show bytesOf b (.write b p) = p from if_pos rfl, ← write_kept counted]
      congr 1
      cases kept : (k.write p).2 with
      | none => rfl
      | some data =>
        by_cases blank : data = []
        · simp [blank, rawPiece]
        · have taken := lossless.accepted p k data rfl found kept blank
          simp [taken, raw_piece_bytes]
    · have other := books_distinct books found' found here
      cases (k'.write p).2 with
      | none => simp [bytesOf, here]
      | some data => simp [bytesOf, here, other]
  | left _ _ elsewhere => simp [named, other_added i ext elsewhere, bytes_of_other elsewhere]

theorem step_ledger (ledger : Ledger e a seen s) (moved : step e s act = some t)
    (lossless : Lossless e a s act) : Ledger e a (seen ++ bytesOf a act) t := by
  obtain ⟨books, absent, counted, flow⟩ := ledger
  have books' := step_books books moved lossless.sound
  have flow' : ∀ k, s.sinks[a]? = some k →
      (t.spool.flow k.rel).flatMap (Piece.bytes e.marshal) = (seen ++ bytesOf a act).take k.max.toNat :=
    fun k found => sink_flow books moved lossless found (counted k found) (flow k found)
  cases step_sinks moved with
  | @opened i ext free sinks here there =>
    have none : bytesOf a (.newBodySink i ext) = [] := rfl
    rw [none, List.append_nil] at flow' ⊢
    have cases : ∀ k, t.sinks[a]? = some k → s.sinks[a]? = some k ∨
        (s.sinks[a]? = Option.none ∧ k = ⟨e.rel i ext, s.maxBody, 0, 0, false⟩) := by
      intro k found
      rcases get_concat (sinks ▸ found) with old | ⟨rfl, rfl⟩
      · exact .inl old
      · exact .inr ⟨by simp, rfl⟩
    refine ⟨books', fun gone => absent ?_, fun k found => ?_, fun k found => ?_⟩
    · rw [sinks, List.getElem?_eq_none_iff, List.length_append] at gone
      exact List.getElem?_eq_none (by omega)
    · rcases cases k found with old | ⟨fresh, rfl⟩
      · exact counted k old
      · rw [absent fresh]
        exact ⟨by simp, rfl, by simp⟩
    · rcases cases k found with old | ⟨fresh, rfl⟩
      · exact flow' k old
      · have blank := books.unused i ext free
        rw [step_flow moved lossless.sound (index_apart e i ext).symm (empty_flow_kept blank), blank,
          other_added i ext (by simp), absent fresh]
        simp
  | @wrote b p k found sinks same =>
    have inside := (List.getElem?_eq_some_iff.1 found).1
    refine ⟨books', fun gone => ?_, fun k' found' => ?_, fun k' found' => ?_⟩
    · rw [sinks, List.getElem?_eq_none_iff, List.length_set] at gone
      have other : b ≠ a := by omega
      simp [absent (List.getElem?_eq_none gone), bytesOf, other]
    · rcases get_set (sinks ▸ found') with ⟨rfl, rfl⟩ | ⟨other, old⟩
      · simpa [bytesOf] using write_counted (counted k found) p
      · simpa [bytesOf, Ne.symm other] using counted k' old
    · rcases get_set (sinks ▸ found') with ⟨rfl, rfl⟩ | ⟨other, old⟩
      · rw [(write_rel k p).1, (write_rel k p).2]
        exact flow' k found
      · exact flow' k' old
  | left sinks same elsewhere =>
    rw [bytes_of_other elsewhere, List.append_nil] at flow' ⊢
    exact ⟨books', fun gone => absent (sinks ▸ gone), fun k found => counted k (sinks ▸ found),
      fun k found => flow' k (sinks ▸ found)⟩

theorem step_sink (found : s.sinks[a]? = some k) (moved : step e s act = some t) :
    ∃ k', t.sinks[a]? = some k' ∧ k'.rel = k.rel ∧ k'.max = k.max := by
  have inside := (List.getElem?_eq_some_iff.1 found).1
  cases step_sinks moved with
  | opened _ sinks => exact ⟨k, by rw [sinks, List.getElem?_append_left inside, found], rfl, rfl⟩
  | @wrote b p k' found' sinks =>
    by_cases here : b = a
    · subst here
      obtain rfl : k = k' := Option.some.inj (found.symm.trans found')
      exact ⟨(k.write p).1, by rw [sinks, List.getElem?_set_self inside], write_rel k p⟩
    · exact ⟨k, by rw [sinks, List.getElem?_set_ne here, found], rfl, rfl⟩
  | left sinks => exact ⟨k, by rw [sinks, found], rfl, rfl⟩

theorem run_sink {bs : List Action} (found : s.sinks[a]? = some k)
    (reached : run (step e) s bs = some t) : ∃ k', t.sinks[a]? = some k' ∧ k'.rel = k.rel ∧ k'.max = k.max := by
  refine run_invariant (I := fun r => ∃ k', r.sinks[a]? = some k' ∧ k'.rel = k.rel ∧ k'.max = k.max)
    ⟨k, found, rfl, rfl⟩ ?_ reached
  rintro r act r' ⟨k', old, rel, max⟩ moved
  obtain ⟨k'', new, rel', max'⟩ := step_sink old moved
  exact ⟨k'', new, rel'.trans rel, max'.trans max⟩

theorem ledger_start (dir : Directory e) (maxBody maxSession : Int) (a : Nat) :
    Ledger e a [] (newRecorder e dir maxBody maxSession) :=
  ⟨books_start dir maxBody maxSession, fun _ => rfl, by simp [newRecorder], by simp [newRecorder]⟩

theorem run_ledger {dir : Directory e} {maxBody maxSession : Int} {as : List Action}
    (along : Along (step e) (Lossless e a) (newRecorder e dir maxBody maxSession) as)
    (reached : run (step e) (newRecorder e dir maxBody maxSession) as = some s) : Ledger e a (bytesTo a as) s := by
  refine run_induct (P := fun as s => Ledger e a (bytesTo a as) s) (ledger_start dir maxBody maxSession a) ?_
    along reached
  intro as s act t _ ledger lossless moved
  simpa [bytesTo] using step_ledger ledger moved lossless

end Runs

/-- In every interleaving in which no piece of a sink is refused or discarded: once what was
    accepted is written, the file is the start of what the sink was given before it was finished,
    and all of it when finish reports nothing cut off. -/
theorem body_file_faithful (e : Session) (dir : Directory e) (maxBody maxSession : Int) (a : Nat) (k : BodySink)
    (as bs : List Action) (s t : Recorder)
    (along : Along (step e) (Lossless e a) (newRecorder e dir maxBody maxSession) (as ++ bs))
    (before : run (step e) (newRecorder e dir maxBody maxSession) as = some s) (found : s.sinks[a]? = some k)
    (after : run (step e) s bs = some t) (finished : bytesTo a bs = []) (drained : t.spool.ahead = []) :
    content e t k.rel <+: bytesTo a as ∧ (k.finish.truncated = false → content e t k.rel = bytesTo a as) := by
  obtain ⟨k', found', rel, max⟩ := run_sink found after
  have whole : run (step e) (newRecorder e dir maxBody maxSession) (as ++ bs) = some t := by
    rw [run_append, before]
    exact after
  have stored : content e t k.rel = (bytesTo a as).take k.max.toNat := by
    have flow := (run_ledger along whole).flow k' found'
    rw [Spool.flow, drained, rel, max] at flow
    simpa [content, pieces, bytesTo, show bs.flatMap (bytesOf a) = [] from finished] using flow
  refine ⟨stored ▸ List.take_prefix _ _, fun uncut => ?_⟩
  have counted := (run_ledger (along_append.1 along).1 before).counted k found
  have fits : (bytesTo a as).length ≤ k.max.toNat := by
    have cut : k.truncated = false := uncut
    rw [counted.truncated] at cut
    exact Nat.not_lt.1 (of_decide_eq_false cut)
  rw [stored, List.take_of_length_le fits]

def bodyRecorder (n : Nat) (ops : List RecOp) : Recorder :=
  let fresh := newRecorder plainSession emptyDirectory (4 * 2 ^ 20) 0
  { fresh with
    txs := [⟨none, some 0, false, .running⟩]
    sinks := [⟨plainSession.rel 0 .res, 4 * 2 ^ 20, n, n, false⟩]
    pending := [(plainSession.txID 0, ⟨none, some 0, false⟩)]
    spool := { fresh.spool with queue := fresh.spool.queue ++ ops, qBytes := n } }

def fillOp (rest : Bytes) : RecOp := .append (plainSession.rel 0 .res) (rawPiece (97 :: rest)) true

theorem body_begins : run (step plainSession) (newRecorder plainSession emptyDirectory (4 * 2 ^ 20) 0)
    [.nextTxID, .newBodySink 0 .res] = some (bodyRecorder 0 []) := rfl

theorem body_open (n : Nat) (ops : List RecOp) : (bodyRecorder n ops).spool.closing = false ∧
    (bodyRecorder n ops).spool.active = true := ⟨rfl, rfl⟩

theorem body_fills (rest : Bytes) (full : rest.length + 1 = recorderQueueLimit) :
    step plainSession (bodyRecorder 0 []) (.write 0 (97 :: rest)) =
      some (bodyRecorder recorderQueueLimit [fillOp rest]) := by
  have size : ((97 : UInt8) :: rest).length = recorderQueueLimit := full
  have wrote := write_whole (k := ⟨plainSession.rel 0 .res, 4 * 2 ^ 20, 0, 0, false⟩) (p := 97 :: rest) (by decide)
    (by rw [size]; decide)
  have opSize : (fillOp rest).size plainSession.marshal = recorderQueueLimit := full
  have room : ¬ (recorderMaxQueuedOps ≤ (bodyRecorder 0 []).spool.queue.length ∨
      (fillOp rest).droppable = true ∧ recorderQueueLimit < (bodyRecorder 0 []).spool.qBytes + recorderQueueLimit) := by
    change ¬ (recorderMaxQueuedOps ≤ 1 ∨ true = true ∧ recorderQueueLimit < 0 + recorderQueueLimit)
    decide
  have queued : (bodyRecorder 0 []).spool.enqueue plainSession.marshal (fillOp rest) =
      (bodyRecorder recorderQueueLimit [fillOp rest]).spool := by
    unfold Spool.enqueue
    rw [opSize, if_neg (by simp [body_open]), if_neg room]
    simp [bodyRecorder, fillOp, RecOp.droppable]
  have stepped : step plainSession (bodyRecorder 0 []) (.write 0 (97 :: rest)) =
      some ((bodyRecorder 0 []).writeBody plainSession 0 (97 :: rest)
        ⟨plainSession.rel 0 .res, 4 * 2 ^ 20, 0, 0, false⟩) := rfl
  rw [stepped, Recorder.writeBody, wrote, size]
  simp only [Option.elim_some, Spool.appendFile]
  rw [show RecOp.append (plainSession.rel 0 .res) (rawPiece (97 :: rest)) true = fillOp rest from rfl, queued]
  rfl

def overRecorder (rest : Bytes) : Recorder :=
  let full := bodyRecorder recorderQueueLimit [fillOp rest]
  { full with
    sinks := [⟨plainSession.rel 0 .res, 4 * 2 ^ 20, recorderQueueLimit + 1, recorderQueueLimit + 1, false⟩]
    spool := { full.spool with dropped := 1 } }

theorem body_overflows (rest : Bytes) : step plainSession (bodyRecorder recorderQueueLimit [fillOp rest])
    (.write 0 (text "b")) = some (overRecorder rest) := by
  have stepped : step plainSession (bodyRecorder recorderQueueLimit [fillOp rest]) (.write 0 (text "b")) =
      some ((bodyRecorder recorderQueueLimit [fillOp rest]).writeBody plainSession 0 (text "b")
        ⟨plainSession.rel 0 .res, 4 * 2 ^ 20, recorderQueueLimit, recorderQueueLimit, false⟩) := rfl
  rw [stepped]
  rfl

/-- One piece too many for the queue, then an empty queue: a gap in the middle of the file. -/
theorem gap_run (rest : Bytes) (full : rest.length + 1 = recorderQueueLimit) :
    ∃ (as : List Action) (s : Recorder) (k : BodySink),
      run (step plainSession) (newRecorder plainSession emptyDirectory (4 * 2 ^ 20) 0) as = some s ∧
      s.sinks[0]? = some k ∧ s.spool.ahead = [] ∧ k.finish.truncated = false ∧
      bytesTo 0 as = 97 :: rest ++ text "bc" ∧ content plainSession s k.rel = 97 :: rest ++ text "c" := by
  have start : (overRecorder rest).spool.flow (plainSession.rel 0 .res) = [.raw (97 :: rest) (by simp)] := rfl
  obtain ⟨t, first, drained⟩ := waiting_drains (e := plainSession) (s := overRecorder rest) rfl rfl (Int.le_refl 0)
  let last : RecOp := .append (plainSession.rel 0 .res) (rawPiece (text "c")) true
  have found : t.sinks[0]? =
      some ⟨plainSession.rel 0 .res, 4 * 2 ^ 20, recorderQueueLimit + 1, recorderQueueLimit + 1, false⟩ := by
    rw [drained.same]
    rfl
  have running : t.spool.closing = false ∧ t.spool.active = true := ⟨drained.spool.closing, drained.spool.active⟩
  have room : t.spool.queue = [] ∧ t.spool.qBytes = 0 := ⟨drained.spool.queue, drained.spool.qBytes⟩
  have taken : t.spool.Accepts plainSession.marshal last := by
    unfold Spool.Accepts
    rw [running.1, running.2, room.1, room.2]
    decide
  let next : Recorder := { t with
    sinks := t.sinks.set 0 ⟨plainSession.rel 0 .res, 4 * 2 ^ 20, recorderQueueLimit + 2, recorderQueueLimit + 2, false⟩
    spool := t.spool.enqueue plainSession.marshal last }
  have appended : step plainSession t (.write 0 (text "c")) = some next := by
    simp only [step, found, Option.bind_eq_bind, Option.bind_some]
    rfl
  have same := enqueue_same plainSession.marshal t.spool last
  obtain ⟨v, second, drained'⟩ := waiting_drains (e := plainSession) (s := next) (same.writer.trans drained.writer)
    (same.closing.trans drained.spool.closing) (by
      change (t.spool.enqueue plainSession.marshal last).maxSession ≤ 0
      rw [same.maxSession, drained.spool.maxSession]
      exact Int.le_refl 0)
  have sinks : v.sinks[0]? =
      some ⟨plainSession.rel 0 .res, 4 * 2 ^ 20, recorderQueueLimit + 2, recorderQueueLimit + 2, false⟩ := by
    rw [drained'.same]
    exact List.getElem?_set_self (List.getElem?_eq_some_iff.1 found).1
  refine ⟨[Action.nextTxID, .newBodySink 0 .res] ++ ([Action.write 0 (97 :: rest), .write 0 (text "b")] ++
    drainActions (overRecorder rest).spool.queue.length) ++
    ([Action.write 0 (text "c")] ++ drainActions next.spool.queue.length), v, _, ?_, sinks, drained_ahead drained',
    rfl, ?_, ?_⟩
  rotate_left
  · rw [show text "bc" = text "b" ++ text "c" from rfl]
    simp only [bytes_to_append, drain_bytes, List.append_nil]
    simp [bytesTo, bytesOf]
  · have apart : plainSession.rel 0 .res ≠ indexFileName := (index_apart plainSession 0 .res).symm
    have flow := drained'.flow (plainSession.rel 0 .res) apart (same.halted.trans drained.spool.halted)
    have kept : next.spool.flow (plainSession.rel 0 .res) = _ := enqueue_flow plainSession.marshal t.spool last _
    rw [if_pos taken, drained.flow _ apart rfl, start] at kept
    have whole : v.spool.disk (plainSession.rel 0 .res) = v.spool.flow (plainSession.rel 0 .res) := by
      rw [Spool.flow, drained_ahead drained']
      simp [pieces]
    rw [content, whole, flow, kept]
    rfl
  · rw [run_append, run_append, body_begins, Option.bind_some, run_append, run_cons, body_fills rest full,
      Option.bind_some, run_cons, body_overflows, Option.bind_some, run_nil, Option.bind_some, first, Option.bind_some,
      run_append, run_cons, appended, Option.bind_some, run_nil, Option.bind_some]
    exact second

/-- The queue drops a piece while the sink goes on counting: the file is not the start of what
    the sink was given, and finish reports nothing cut off. -/
theorem dropped_piece_leaves_gap :
    ∃ as s k, run (step plainSession) (newRecorder plainSession emptyDirectory (4 * 2 ^ 20) 0) as = some s ∧
      s.sinks[0]? = some k ∧ s.spool.ahead = [] ∧ k.finish.truncated = false ∧
      ¬ content plainSession s k.rel <+: bytesTo 0 as ∧ content plainSession s k.rel ≠ bytesTo 0 as := by
  obtain ⟨as, s, k, reached, found, drained, uncut, given, kept⟩ :=
    gap_run (List.replicate 2097151 97) (by rw [List.length_replicate]; rfl)
  refine ⟨as, s, k, reached, found, drained, uncut, ?_, ?_⟩
  · rw [given, kept, List.prefix_append_right_inj]
    decide
  · rw [given, kept, ne_eq, List.append_cancel_left_eq]
    decide

section Quiet
variable {e : Session} {s : Recorder} {act : Action}

theorem lossless_quiet (silent : ∀ p, act ≠ .write a p) (idle : ∀ attempt stop, act ≠ .work attempt stop) :
    Lossless e a s act := by
  refine ⟨?_, fun p _ _ wrote => absurd wrote (silent p),
    fun _ _ attempt stop _ _ works => absurd works (idle attempt stop)⟩
  cases act with
  | work attempt stop => exact absurd rfl (idle attempt stop)
  | _ => exact trivial

theorem lossless_work (running : s.spool.halted = false) : Lossless e a s (.work .succeeds .succeeds) :=
  ⟨⟨rfl, rfl⟩, fun _ _ _ wrote => (by cases wrote), fun _ _ _ _ _ _ _ _ _ => running⟩

theorem lossless_write {data : Bytes} (found : s.sinks[a]? = some k) (kept : (k.write p).2 = some data)
    (taken : s.spool.Accepts e.marshal (.append k.rel (rawPiece data) true)) : Lossless e a s (.write a p) := by
  refine ⟨trivial, fun q k' data' same found' kept' _ => ?_, fun _ _ _ _ _ _ works => by cases works⟩
  cases same
  obtain rfl : k = k' := Option.some.inj (found.symm.trans found')
  obtain rfl : data = data' := Option.some.inj (kept.symm.trans kept')
  exact taken

end Quiet

def wholeRun : List Action := [.nextTxID, .newBodySink 0 .res, .write 0 (text "ab")]

def wholeRecorder : Recorder :=
  bodyRecorder 2 [.append (plainSession.rel 0 .res) (rawPiece (text "ab")) true]

theorem whole_run : run (step plainSession) (newRecorder plainSession emptyDirectory (4 * 2 ^ 20) 0) wholeRun =
    some wholeRecorder := rfl

theorem whole_lossless : Along (step plainSession) (Lossless plainSession 0)
    (newRecorder plainSession emptyDirectory (4 * 2 ^ 20) 0) (wholeRun ++ .finish 0 :: drainActions 3) := by
  refine ⟨lossless_quiet (by simp) (by simp), fun _ moved => ?_⟩
  cases moved
  refine ⟨lossless_quiet (by simp) (by simp), fun _ moved => ?_⟩
  cases moved
  refine ⟨lossless_write rfl rfl (by decide), fun _ moved => ?_⟩
  cases moved
  refine ⟨lossless_quiet (by simp) (by simp), fun _ moved => ?_⟩
  cases moved
  refine ⟨lossless_quiet (by simp) (by simp), fun _ moved => ?_⟩
  cases moved
  refine ⟨lossless_work rfl, fun _ moved => ?_⟩
  cases moved
  refine ⟨lossless_work rfl, fun _ moved => ?_⟩
  cases moved
  refine ⟨lossless_work rfl, fun _ moved => ?_⟩
  cases moved
  exact ⟨lossless_quiet (by simp) (by simp), fun _ _ => trivial⟩

theorem whole_body_faithful :
    ∃ t k, run (step plainSession) wholeRecorder (.finish 0 :: drainActions 3) = some t ∧
      wholeRecorder.sinks[0]? = some k ∧ content plainSession t k.rel = text "ab" ∧
      content plainSession t k.rel <+: bytesTo 0 wholeRun ∧
      (k.finish.truncated = false → content plainSession t k.rel = bytesTo 0 wholeRun) := by
  refine ⟨_, _, rfl, rfl, rfl, ?_⟩
  exact body_file_faithful plainSession emptyDirectory (4 * 2 ^ 20) 0 0 _ wholeRun (.finish 0 :: drainActions 3)
    wholeRecorder _ whole_lossless whole_run rfl rfl rfl rfl

end BodyFiles
