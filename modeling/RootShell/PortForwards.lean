import RootShell.ByteLines
import RootShell.Interleaving
import RootShell.KeyedTables
import Mathlib.Logic.Function.Basic

/-!
The bookkeeping of port forwards. The table is keyed by the ID the caller chose, while the
goroutine of a forward knows only that ID when it removes itself, so a forward that ends
late may meet the entry of a younger one.
-/
namespace PortForwards
open ByteLines Interleaving KeyedTables
universe u
variable {I : Type u} {n : Nat} {i : Fin n}

inductive Direction where
  | locally
  | remotely
  | dynamically
  | invalid
  deriving DecidableEq

structure Request (I : Type u) where
  id : I
  direction : Direction

inductive Phase where
  | unstarted
  | refused
  | entered
  | rejected
  | starting
  | listening
  | listened
  | accepting
  | failing
  | ended
  deriving DecidableEq

def Phase.running : Phase → Bool
  | entered | starting | listening | listened | accepting | failing => true
  | _ => false

inductive Stopping where
  | untouched
  | taken
  | cancelled
  | told
  deriving DecidableEq

structure Forwarder (I : Type u) (n : Nat) where
  phases : Fin n → Phase
  stopping : Fin n → Stopping
  forwards : Table I (Fin n)
  stops : Fin n → Nat
  closed : Bool
  cancelled : Bool

def start (I : Type u) (n : Nat) : Forwarder I n where
  phases _ := .unstarted
  stopping _ := .untouched
  forwards := ∅
  stops _ := 0
  closed := false
  cancelled := false

inductive Action (I : Type u) (n : Nat) where
  | startForward (i : Fin n)
  | launch (i : Fin n)
  | checkStart (i : Fin n)
  | listen (i : Fin n) (ok : Bool)
  | checkListen (i : Fin n)
  | acceptFail (i : Fin n)
  | remove (i : Fin n)
  | stopForward (id : I)
  | stopAll
  | close
  | cancelAll
  | cancel (i : Fin n)
  | notify (i : Fin n)

namespace Forwarder
variable (s : Forwarder I n)

def goto (i : Fin n) (next : Phase) : Forwarder I n := { s with phases := Function.update s.phases i next }

def ctxDone (i : Fin n) : Bool :=
  match s.stopping i with
  | .cancelled | .told => true
  | _ => s.cancelled

def tell (i : Fin n) : Forwarder I n := { s with stops := Function.update s.stops i (s.stops i + 1) }

def mark (i : Fin n) (next : Stopping) : Forwarder I n :=
  { s with stopping := Function.update s.stopping i next }

variable [DecidableEq I]

def entry (id : I) : Option (Fin n) := get (some s.forwards) id

def file (id : I) (i : Fin n) : Forwarder I n := { s with forwards := s.forwards.insert id i }

def drop (id : I) : Forwarder I n := { s with forwards := s.forwards.erase id }

/-- OnForwardStopped is called if the ID had an entry, whosever it was. -/
def removeForwardAndNotify (id : I) : Forwarder I n :=
  match s.entry id with
  | some j => (s.drop id).tell j
  | none => s.drop id

def takeAll : Forwarder I n :=
  { s with
    stopping := fun i => if i ∈ values (some s.forwards) then .taken else s.stopping i
    forwards := ∅ }

end Forwarder

section Dispatch
variable [DecidableEq I]

/-- The remote variant looks at its context again when listening has failed; the others
    report the failure in any case. -/
def listenFailed (r : Request I) (done : Bool) : Phase :=
  if r.direction = .remotely then (if done then .ended else .failing) else .failing

def step (req : Fin n → Request I) (s : Forwarder I n) : Action I n → Option (Forwarder I n)
  | .startForward i =>
    if s.phases i = .unstarted then
      some (if s.closed || (s.entry (req i).id).isSome then s.goto i .refused
        else (s.file (req i).id i).goto i .entered)
    else none
  | .launch i =>
    if s.phases i = .entered then
      some (if (req i).direction = .invalid then (s.drop (req i).id).goto i .rejected else s.goto i .starting)
    else none
  | .checkStart i =>
    if s.phases i = .starting then some (s.goto i (if s.ctxDone i then .ended else .listening)) else none
  | .listen i ok =>
    if s.phases i = .listening then
      some (s.goto i (if ok then .listened else listenFailed (req i) (s.ctxDone i)))
    else none
  | .checkListen i =>
    if s.phases i = .listened then some (s.goto i (if s.ctxDone i then .ended else .accepting)) else none
  | .acceptFail i =>
    if s.phases i = .accepting then some (s.goto i (if s.ctxDone i then .ended else .failing)) else none
  | .remove i =>
    if s.phases i = .failing then some ((s.removeForwardAndNotify (req i).id).goto i .ended) else none
  | .stopForward id => (s.entry id).map fun i => (s.drop id).mark i .taken
  | .stopAll => some s.takeAll
  | .close => if s.closed = false then some { s.takeAll with closed := true } else none
  | .cancelAll => if s.closed = true then some { s with cancelled := true } else none
  | .cancel i => if s.stopping i = .taken then some (s.mark i .cancelled) else none
  | .notify i => if s.stopping i = .cancelled then some ((s.tell i).mark i .told) else none

end Dispatch

variable {next : Phase}

section Reports
variable {s t : Forwarder I n}

def Forwarder.active (s : Forwarder I n) (i : Fin n) : Bool := (s.phases i).running && s.stopping i == .untouched

def reports : Phase → Stopping → Nat
  | _, .told => 1
  | .ended, .untouched => 1
  | _, _ => 0

@[simp] theorem goto_phases (s : Forwarder I n) (i : Fin n) (next : Phase) (j : Fin n) :
    (s.goto i next).phases j = if j = i then next else s.phases j := Function.update_apply _ _ _ _

@[simp] theorem mark_stopping (s : Forwarder I n) (i : Fin n) (next : Stopping) (j : Fin n) :
    (s.mark i next).stopping j = if j = i then next else s.stopping j := Function.update_apply _ _ _ _

@[simp] theorem active_goto (s : Forwarder I n) (i : Fin n) (next : Phase) (j : Fin n) :
    (s.goto i next).active j = if j = i then next.running && s.stopping i == .untouched else s.active j := by
  simp only [Forwarder.active, goto_phases]
  split
  · rename_i same
    rw [same]
    rfl
  · rfl

@[simp] theorem active_mark (s : Forwarder I n) (i : Fin n) (next : Stopping) (j : Fin n) :
    (s.mark i next).active j = if j = i then (s.phases i).running && next == .untouched else s.active j := by
  simp only [Forwarder.active, mark_stopping]
  split
  · rename_i same
    rw [same]
    rfl
  · rfl

@[simp] theorem active_tell (s : Forwarder I n) (i j : Fin n) : (s.tell i).active j = s.active j := rfl

theorem active_iff (s : Forwarder I n) (i : Fin n) :
    s.active i = true ↔ (s.phases i).running = true ∧ s.stopping i = .untouched := by
  rw [Forwarder.active, Bool.and_eq_true, beq_iff_eq]

theorem reports_running {p : Phase} (running : p.running = true) (st : Stopping) :
    reports p st = if st = .told then 1 else 0 := by
  cases p <;> cases st <;> simp_all [Phase.running, reports]

theorem reports_taken (active : s.active i = true) :
    reports (s.phases i) (s.stopping i) = reports (s.phases i) .taken := by
  obtain ⟨running, untouched⟩ := (active_iff s i).1 active
  rw [reports_running running, reports_running running, untouched]
  rfl

structure Told (s : Forwarder I n) : Prop where
  stops : ∀ i, s.stops i = reports (s.phases i) (s.stopping i)
  unstarted : ∀ i, s.phases i = .unstarted → s.stopping i = .untouched

theorem Told.update (told : Told s)
    (others : ∀ j, j ≠ i → t.stops j = s.stops j ∧ t.phases j = s.phases j ∧ t.stopping j = s.stopping j)
    (begun : t.phases i ≠ .unstarted) (own : t.stops i = reports (t.phases i) (t.stopping i)) : Told t := by
  constructor
  · intro j
    by_cases same : j = i
    · rw [same]
      exact own
    · obtain ⟨stops, phases, stopping⟩ := others j same
      rw [stops, phases, stopping]
      exact told.stops j
  · intro j unstarted
    have other : j ≠ i := by
      rintro rfl
      exact begun unstarted
    obtain ⟨_, phases, stopping⟩ := others j other
    rw [stopping]
    exact told.unstarted j (phases ▸ unstarted)

theorem Told.goto (told : Told s) (begun : next ≠ .unstarted)
    (same : s.stops i = reports next (s.stopping i)) : Told (s.goto i next) := by
  refine told.update (i := i) (fun j other => ⟨rfl, by simp [other], rfl⟩) (by simp [begun]) ?_
  rw [goto_phases, if_pos rfl]
  exact same

end Reports

section Views
variable [DecidableEq I] (s : Forwarder I n)

@[simp] theorem entry_goto (i : Fin n) (next : Phase) (id : I) : (s.goto i next).entry id = s.entry id := rfl

@[simp] theorem entry_tell (i : Fin n) (id : I) : (s.tell i).entry id = s.entry id := rfl

@[simp] theorem entry_mark (i : Fin n) (next : Stopping) (id : I) : (s.mark i next).entry id = s.entry id := rfl

@[simp] theorem entry_take_all (id : I) : s.takeAll.entry id = none := rfl

@[simp] theorem entry_file (id : I) (i : Fin n) (key : I) :
    (s.file id i).entry key = if key = id then some i else s.entry key := get_insert _ _ _ _

@[simp] theorem entry_drop (id key : I) : (s.drop id).entry key = if key = id then none else s.entry key :=
  get_delete (some s.forwards) id key

@[simp] theorem active_file (id : I) (i j : Fin n) : (s.file id i).active j = s.active j := rfl

@[simp] theorem active_drop (id : I) (j : Fin n) : (s.drop id).active j = s.active j := rfl

end Views

section Bookkeeping
variable [DecidableEq I] {req : Fin n → Request I} {s t : Forwarder I n} {a : Action I n}

def Allowed (req : Fin n → Request I) (s : Forwarder I n) : Action I n → Prop
  | .remove i => ∀ j, s.entry (req i).id = some j → j = i
  | .launch i => (req i).direction = .invalid → ∀ j, s.entry (req i).id = some j → j = i
  | _ => True

structure Booked (req : Fin n → Request I) (s : Forwarder I n) : Prop where
  entries : ∀ id i, s.entry id = some i ↔ (req i).id = id ∧ s.active i = true
  told : Told s
  closed : s.closed = true → ∀ id, s.entry id = none
  cancelled : s.cancelled = true → s.closed = true

theorem booked_start (req : Fin n → Request I) : Booked req (start I n) where
  entries := by simp [start, Forwarder.entry, Forwarder.active, Phase.running]
  told := ⟨by simp [start, reports], by simp [start]⟩
  closed := by simp [start]
  cancelled := by simp [start]

theorem Booked.move (booked : Booked req s) (begun : next ≠ .unstarted)
    (active : (next.running && s.stopping i == .untouched) = s.active i)
    (told : reports (s.phases i) (s.stopping i) = reports next (s.stopping i)) : Booked req (s.goto i next) := by
  refine ⟨?_, booked.told.goto begun ((booked.told.stops i).trans told), booked.closed, booked.cancelled⟩
  intro id j
  by_cases own : j = i
  · rw [entry_goto, active_goto, if_pos own, active, own]
    exact booked.entries id i
  · rw [entry_goto, active_goto, if_neg own]
    exact booked.entries id j

theorem Booked.proceed (booked : Booked req s) (before : (s.phases i).running = true)
    (after : next.running = true) : Booked req (s.goto i next) := by
  refine booked.move ?_ ?_ ?_
  · rintro rfl
    cases after
  · rw [Forwarder.active, before, after]
  · rw [reports_running before, reports_running after]

theorem Booked.finish (booked : Booked req s) (before : (s.phases i).running = true)
    (touched : s.stopping i ≠ .untouched) : Booked req (s.goto i .ended) := by
  refine booked.move (by simp) ?_ ?_
  · rw [Forwarder.active, beq_eq_false_iff_ne.2 touched, Bool.and_false, Bool.and_false]
  · rw [reports_running before]
    cases state : s.stopping i with
    | untouched => exact absurd state touched
    | taken => rfl
    | cancelled => rfl
    | told => rfl

theorem Booked.touched (booked : Booked req s) (running : (s.phases i).running = true)
    (done : s.ctxDone i = true) : s.stopping i ≠ .untouched := by
  intro untouched
  have all : s.cancelled = true := by simpa [Forwarder.ctxDone, untouched] using done
  have filed := (booked.entries (req i).id i).2 ⟨rfl, (active_iff s i).2 ⟨running, untouched⟩⟩
  rw [booked.closed (booked.cancelled all)] at filed
  cases filed

theorem Booked.settle (booked : Booked req s) (before : (s.phases i).running = true)
    (after : next.running = true) : Booked req (s.goto i (if s.ctxDone i then .ended else next)) := by
  split
  · rename_i done
    exact booked.finish before (booked.touched before done)
  · exact booked.proceed before after

theorem Booked.listenFailed (booked : Booked req s) (before : (s.phases i).running = true) :
    Booked req (s.goto i (listenFailed (req i) (s.ctxDone i))) := by
  unfold PortForwards.listenFailed
  split
  · exact booked.settle before rfl
  · exact booked.proceed before rfl

theorem Booked.refuse (booked : Booked req s) (phase : s.phases i = .unstarted) : Booked req (s.goto i .refused) := by
  refine booked.move (by simp) ?_ ?_
  · rw [Forwarder.active, phase]
    rfl
  · rw [booked.told.unstarted i phase, phase]
    rfl

theorem Booked.enter (booked : Booked req s) (phase : s.phases i = .unstarted) (running : s.closed = false)
    (free : s.entry (req i).id = none) : Booked req ((s.file (req i).id i).goto i .entered) := by
  have untouched := booked.told.unstarted i phase
  have begun : (Phase.entered.running && (s.file (req i).id i).stopping i == .untouched) = true := by
    simp [Forwarder.file, untouched, Phase.running]
  have kept : Told (s.file (req i).id i) := ⟨booked.told.stops, booked.told.unstarted⟩
  refine ⟨?_, kept.goto (by simp) ?_, fun closed => ?_, booked.cancelled⟩
  · intro id j
    have before := booked.entries id j
    rw [entry_goto, entry_file, active_goto, active_file, begun]
    by_cases own : j = i
    · subst own
      have inactive : s.active j = false := by simp [Forwarder.active, phase, Phase.running]
      grind
    · grind
  · refine (booked.told.stops i).trans ?_
    simp [Forwarder.file, phase, untouched, reports]
  · simp [Forwarder.goto, Forwarder.file, running] at closed

theorem Booked.without (booked : Booked req s) (active : ∀ j, t.active j = if j = i then false else s.active j)
    (entry : ∀ id, t.entry id = if id = (req i).id then none else s.entry id)
    (alone : ∀ j, s.entry (req i).id = some j → j = i) (id : I) (j : Fin n) :
    t.entry id = some j ↔ (req j).id = id ∧ t.active j = true := by
  have here := booked.entries id j
  have mine := booked.entries (req i).id j
  rw [entry, active]
  grind

theorem Booked.drop_closed (booked : Booked req s) (id : I) (closed : s.closed = true) (key : I) :
    (s.drop id).entry key = none := by
  rw [entry_drop, booked.closed closed key, ite_self]

theorem Booked.reject (booked : Booked req s) (phase : s.phases i = .entered)
    (alone : ∀ j, s.entry (req i).id = some j → j = i) : Booked req ((s.drop (req i).id).goto i .rejected) := by
  have kept : Told (s.drop (req i).id) := ⟨booked.told.stops, booked.told.unstarted⟩
  refine ⟨booked.without ?_ (entry_drop s (req i).id) alone, kept.goto (by simp) ?_, booked.drop_closed _,
    booked.cancelled⟩
  · intro j
    rw [active_goto, active_drop]
    rfl
  · refine (booked.told.stops i).trans ?_
    simp only [Forwarder.drop, phase]
    cases s.stopping i <;> rfl

theorem Booked.remove (booked : Booked req s) (phase : s.phases i = .failing)
    (alone : ∀ j, s.entry (req i).id = some j → j = i) :
    Booked req ((s.removeForwardAndNotify (req i).id).goto i .ended) := by
  unfold Forwarder.removeForwardAndNotify
  cases found : s.entry (req i).id with
  | none =>
    have touched : s.stopping i ≠ .untouched := by
      intro untouched
      have active : s.active i = true := (active_iff s i).2 ⟨by rw [phase]; rfl, untouched⟩
      rw [(booked.entries _ i).2 ⟨rfl, active⟩] at found
      cases found
    have kept : Booked req (s.drop (req i).id) := by
      refine ⟨fun id j => ?_, ⟨booked.told.stops, booked.told.unstarted⟩, booked.drop_closed _, booked.cancelled⟩
      rw [entry_drop, active_drop, ← booked.entries id j]
      grind
    exact kept.finish (by simp [Forwarder.drop, phase, Phase.running]) touched
  | some j =>
    obtain rfl := alone j found
    have untouched := ((active_iff s j).1 ((booked.entries _ _).1 found).2).2
    refine ⟨booked.without ?_ (entry_drop s (req j).id) alone, ?_, booked.drop_closed _, booked.cancelled⟩
    · intro k
      rw [active_goto, active_tell, active_drop]
      rfl
    · refine booked.told.update (i := j) (fun k other => ?_) (by simp) ?_
      · simp [Forwarder.goto, Forwarder.tell, Forwarder.drop, other]
      · have before := booked.told.stops j
        rw [phase, untouched] at before
        simp [Forwarder.goto, Forwarder.tell, Forwarder.drop, untouched, before, reports]

theorem Booked.take (booked : Booked req s) {id : I} (found : s.entry id = some i) :
    Booked req ((s.drop id).mark i .taken) := by
  obtain ⟨rfl, active⟩ := (booked.entries id i).1 found
  have alone (j : Fin n) (other : s.entry (req i).id = some j) : j = i :=
    Option.some.inj (other.symm.trans found)
  refine ⟨booked.without ?_ (entry_drop s (req i).id) alone, ?_, booked.drop_closed _, booked.cancelled⟩
  · intro j
    rw [active_mark, active_drop]
    by_cases same : j = i <;> simp [same]
  · refine booked.told.update (i := i) (fun j other => ?_) ?_ ?_
    · simp [Forwarder.mark, Forwarder.drop, other]
    · intro unstarted
      have running := ((active_iff s i).1 active).1
      rw [show s.phases i = .unstarted from unstarted] at running
      cases running
    · rw [mark_stopping, if_pos rfl]
      exact (booked.told.stops i).trans (reports_taken active)

theorem Booked.takeAll (booked : Booked req s) : Booked req s.takeAll := by
  have taken (i : Fin n) : i ∈ values (some s.forwards) ↔ s.active i = true := by
    constructor
    · intro member
      obtain ⟨id, found⟩ := mem_values.1 member
      exact ((booked.entries id i).1 found).2
    · intro active
      exact mem_values.2 ⟨_, (booked.entries (req i).id i).2 ⟨rfl, active⟩⟩
  have marks (i : Fin n) : s.takeAll.stopping i = if s.active i = true then .taken else s.stopping i := by
    simp only [Forwarder.takeAll, taken]
  refine ⟨?_, ⟨?_, ?_⟩, fun _ _ => rfl, booked.cancelled⟩
  · intro id i
    have inactive : s.takeAll.active i = false := by
      rw [Forwarder.active, marks]
      split
      · simp
      · rename_i idle
        exact Bool.eq_false_iff.2 idle
    simp [inactive]
  · intro i
    rw [marks]
    refine (booked.told.stops i).trans ?_
    split
    · rename_i active
      exact reports_taken active
    · rfl
  · intro i unstarted
    have begun : s.phases i = .unstarted := unstarted
    rw [marks, if_neg (by simp [Forwarder.active, begun, Phase.running])]
    exact booked.told.unstarted i begun

theorem Booked.marked (booked : Booked req s) {next : Stopping} (before : s.stopping i ≠ .untouched)
    (after : next ≠ .untouched) (id : I) (j : Fin n) :
    (s.mark i next).entry id = some j ↔ (req j).id = id ∧ (s.mark i next).active j = true := by
  have here := booked.entries id j
  rw [entry_mark, active_mark]
  by_cases own : j = i
  · rw [here, if_pos own, own]
    simp [Forwarder.active, before, after]
  · rw [here, if_neg own]

theorem Booked.begun (booked : Booked req s) (touched : s.stopping i ≠ .untouched) :
    s.phases i ≠ .unstarted := fun unstarted => touched (booked.told.unstarted i unstarted)

theorem Booked.cancel (booked : Booked req s) (taken : s.stopping i = .taken) : Booked req (s.mark i .cancelled) := by
  have touched : s.stopping i ≠ .untouched := by simp [taken]
  have told : Told (s.mark i .cancelled) := by
    refine booked.told.update (i := i) (fun j other => ⟨rfl, rfl, by simp [other]⟩) (booked.begun touched) ?_
    rw [mark_stopping, if_pos rfl]
    refine (booked.told.stops i).trans ?_
    rw [taken]
    change reports (s.phases i) .taken = reports (s.phases i) .cancelled
    cases s.phases i <;> rfl
  exact ⟨booked.marked touched (by simp), told, booked.closed, booked.cancelled⟩

theorem Booked.notify (booked : Booked req s) (cancelled : s.stopping i = .cancelled) :
    Booked req ((s.tell i).mark i .told) := by
  have touched : s.stopping i ≠ .untouched := by simp [cancelled]
  have silent : s.stops i = 0 := by
    rw [booked.told.stops, cancelled]
    cases s.phases i <;> rfl
  have told : Told ((s.tell i).mark i .told) := by
    refine booked.told.update (i := i) (fun j other => ?_) (booked.begun touched) ?_
    · simp [Forwarder.tell, Forwarder.mark, other]
    · simp [Forwarder.tell, Forwarder.mark, silent, reports]
  exact ⟨booked.marked touched (by simp), told, booked.closed, booked.cancelled⟩

theorem Booked.step (booked : Booked req s) (allowed : Allowed req s a) (moved : step req s a = some t) :
    Booked req t := by
  cases a with
  | startForward i =>
    obtain ⟨phase, rfl⟩ := guarded moved
    split
    · exact booked.refuse phase
    · rename_i free
      simp only [Bool.or_eq_true, not_or, Bool.not_eq_true, Option.isSome_eq_false_iff, Option.isNone_iff_eq_none]
        at free
      exact booked.enter phase free.1 free.2
  | launch i =>
    obtain ⟨phase, rfl⟩ := guarded moved
    split
    · rename_i invalid
      exact booked.reject phase (allowed invalid)
    · exact booked.proceed (by rw [phase]; rfl) rfl
  | checkStart i =>
    obtain ⟨phase, rfl⟩ := guarded moved
    exact booked.settle (by rw [phase]; rfl) rfl
  | listen i ok =>
    obtain ⟨phase, rfl⟩ := guarded moved
    cases ok with
    | true => exact booked.proceed (by rw [phase]; rfl) rfl
    | false => exact booked.listenFailed (by rw [phase]; rfl)
  | checkListen i =>
    obtain ⟨phase, rfl⟩ := guarded moved
    exact booked.settle (by rw [phase]; rfl) rfl
  | acceptFail i =>
    obtain ⟨phase, rfl⟩ := guarded moved
    exact booked.settle (by rw [phase]; rfl) rfl
  | remove i =>
    obtain ⟨phase, rfl⟩ := guarded moved
    exact booked.remove phase allowed
  | stopForward id =>
    obtain ⟨i, found, rfl⟩ := Option.map_eq_some_iff.1 moved
    exact booked.take found
  | stopAll =>
    cases moved
    exact booked.takeAll
  | close =>
    obtain ⟨_, rfl⟩ := guarded moved
    have taken := booked.takeAll
    exact ⟨taken.entries, ⟨taken.told.stops, taken.told.unstarted⟩, fun _ _ => rfl, fun _ => rfl⟩
  | cancelAll =>
    obtain ⟨closed, rfl⟩ := guarded moved
    exact ⟨booked.entries, ⟨booked.told.stops, booked.told.unstarted⟩, booked.closed, fun _ => closed⟩
  | cancel i =>
    obtain ⟨phase, rfl⟩ := guarded moved
    exact booked.cancel phase
  | notify i =>
    obtain ⟨phase, rfl⟩ := guarded moved
    exact booked.notify phase

end Bookkeeping

section Safety
variable [DecidableEq I] {req : Fin n → Request I} {s : Forwarder I n}

structure Done (s : Forwarder I n) : Prop where
  closed : s.closed = true
  phases : ∀ i, (s.phases i).running = false
  stopping : ∀ i, s.stopping i = .untouched ∨ s.stopping i = .told

/-- The bookkeeping follows the forwards: one that nobody is stopping is the entry of its
    ID, so a StopForward call takes it and no other forward runs under its ID, and a
    forward whose StartForward returned nil is reported once in the end. -/
structure Safe (req : Fin n → Request I) (s : Forwarder I n) : Prop where
  entry : ∀ i, s.active i = true → s.entry (req i).id = some i
  stoppable : ∀ i, s.active i = true → step req s (.stopForward (req i).id) =
    some ((s.drop (req i).id).mark i .taken)
  single : ∀ i j, s.active i = true → s.active j = true → (req i).id = (req j).id → i = j
  once : Done s → ∀ i, s.phases i = .ended → s.stops i = 1

theorem Booked.safe (booked : Booked req s) : Safe req s := by
  have entry (i : Fin n) (active : s.active i = true) : s.entry (req i).id = some i :=
    (booked.entries _ i).2 ⟨rfl, active⟩
  constructor
  · exact entry
  · intro i active
    rw [PortForwards.step, entry i active]
    rfl
  · intro i j first second same
    have here := entry i first
    rw [same, entry j second] at here
    exact (Option.some.inj here).symm
  · intro done i ended
    rw [booked.told.stops, ended]
    rcases done.stopping i with untouched | told
    · rw [untouched]
      rfl
    · rw [told]
      rfl

/-- In every interleaving whose removals by ID meet their own forward or no entry, the
    bookkeeping follows the forwards. -/
theorem forwards_safe {as : List (Action I n)} (allowed : Along (step req) (Allowed req) (start I n) as)
    (reached : run (step req) (start I n) as = some s) : Safe req s :=
  (run_induct (P := fun _ s => Booked req s) (booked_start req)
    (fun _ _ _ _ _ booked here moved => booked.step here moved) allowed reached).safe

instance decidableAllowed (req : Fin n → Request I) :
    ∀ (s : Forwarder I n) (a : Action I n), Decidable (Allowed req s a)
  | s, .remove i => inferInstanceAs (Decidable (∀ j, s.entry (req i).id = some j → j = i))
  | s, .launch i =>
    inferInstanceAs (Decidable ((req i).direction = .invalid → ∀ j, s.entry (req i).id = some j → j = i))
  | _, .startForward _ | _, .checkStart _ | _, .listen _ _ | _, .checkListen _ | _, .acceptFail _
  | _, .stopForward _ | _, .stopAll | _, .close | _, .cancelAll | _, .cancel _ | _, .notify _ => .isTrue trivial

def restarted (_ : Fin 2) : Request Bytes := ⟨text "web", .locally⟩

def failAndRestart (first second : Fin n) : List (Action Bytes n) :=
  [.startForward first, .launch first, .checkStart first, .listen first true, .checkListen first, .acceptFail first,
    .remove first, .startForward second, .launch second, .checkStart second, .listen second true,
    .checkListen second, .stopForward (text "web"), .cancel second, .acceptFail second, .notify second, .close,
    .cancelAll]

theorem fail_and_restart_safe :
    ∃ s, run (step restarted) (start Bytes 2) (failAndRestart 0 1) = some s ∧ Done s ∧ s.stops 0 = 1 ∧
      s.stops 1 = 1 ∧ Safe restarted s :=
  have allowed : Along (step restarted) (Allowed restarted) (start Bytes 2) (failAndRestart 0 1) := by decide +kernel
  ⟨_, rfl, ⟨rfl, by decide, by decide⟩, rfl, rfl, forwards_safe allowed rfl⟩

/-- The first forward fails to listen while StopForward takes it; the second is started
    before the first removes its ID, and loses its entry. A third call under the ID would
    then run beside it. -/
theorem late_removal_unsafe :
    ∃ s, run (step restarted) (start Bytes 2)
        [.startForward 0, .launch 0, .checkStart 0, .listen 0 false, .stopForward (text "web"), .cancel 0, .notify 0,
          .startForward 1, .launch 1, .checkStart 1, .listen 1 true, .checkListen 1, .remove 0] = some s ∧
      s.phases 1 = .accepting ∧ s.stopping 1 = .untouched ∧ s.entry (text "web") = none ∧ s.stops 1 = 1 ∧
      ¬ Safe restarted s := by
  refine ⟨_, rfl, rfl, rfl, rfl, rfl, fun safe => ?_⟩
  exact nomatch safe.entry 1 rfl

end Safety

end PortForwards
