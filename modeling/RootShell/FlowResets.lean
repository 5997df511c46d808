import RootShell.TcpFlows
import Mathlib.Data.Nat.Cast.Order.Ring

/-!
The registries of the TCP flows and what holds in every run: a reset finds each flow at most once
and only while it is at work, an ended flow has answered its request once and left nothing open,
and no flow is ever stuck.
-/
namespace TcpFlows
open Interleaving KeyedTables ThreadPools
universe u
variable {A : Type u} {n e m cap : Nat} {v6 : Fin n → Bool} {dst : Fin n → A}

section Registries
variable (s : Shared n e m) {i : Fin n} {t : Shared n e m}

theorem entry_add (k : Fin e) (i : Fin n) (j : Fin e) (id : Nat) :
    (s.add k i).entry j id = if j = k ∧ id = s.nextId k then some i else s.entry j id := by
  by_cases same : j = k
  · subst same
    simp [Shared.entry, Shared.add, Shared.register, get_insert]
  · simp [Shared.entry, Shared.add, Shared.register, same]

theorem entry_remove (k : Fin e) (id : Nat) (j : Fin e) (other : Nat) :
    (s.remove k id).entry j other = if j = k ∧ other = id then none else s.entry j other := by
  by_cases same : j = k
  · subst same
    simpa [Shared.entry, Shared.remove, Shared.register, delete] using get_delete (some (s.registries j).flows) id other
  · simp [Shared.entry, Shared.remove, Shared.register, same]

theorem entry_abort (k : Fin e) (hit : Fin n → Bool) (j : Fin e) (id : Nat) (i : Fin n) :
    (s.abortMatching k hit).entry j id = some i ↔ s.entry j id = some i ∧ ¬ (j = k ∧ hit i = true) := by
  by_cases same : j = k
  · subst same
    simp [Shared.entry, Shared.abortMatching, Shared.register, get_filter]
  · simp [Shared.entry, Shared.abortMatching, Shared.register, same]

theorem seq_add (k : Fin e) (i : Fin n) (j : Fin e) : (s.registries j).seq ≤ ((s.add k i).registries j).seq := by
  by_cases same : j = k
  · subst same
    simp [Shared.add, Shared.register, Shared.nextId]
  · simp [Shared.add, Shared.register, same]

theorem seq_register_flows (k : Fin e) (flows : Table Nat (Fin n)) (j : Fin e) :
    ((s.register k { s.registries k with flows := flows }).registries j).seq = (s.registries j).seq := by
  by_cases same : j = k
  · subst same
    simp [Shared.register]
  · simp [Shared.register, same]

theorem seq_remove (k : Fin e) (id : Nat) (j : Fin e) :
    ((s.remove k id).registries j).seq = (s.registries j).seq := seq_register_flows s k _ j

theorem seq_abort (k : Fin e) (hit : Fin n → Bool) (j : Fin e) :
    ((s.abortMatching k hit).registries j).seq = (s.registries j).seq := seq_register_flows s k _ j

inductive Filing (i : Fin n) (s t : Shared n e m) (f h : Flow e) : Prop where
  | keeps (registries : t.registries = s.registries) (hits : t.hits = s.hits)
      (filings : removals h.deferred = removals f.deferred) (aborts : h.aborts = f.aborts)
      (onwards : f.phase.filed = true → h.phase.filed = true)
  | files (k : Fin e) (shared : t = s.add k i) (filings : removals h.deferred = (k, s.nextId k) :: removals f.deferred)
      (aborts : h.aborts = f.aborts) (before : f.phase.filed = false) (behind : h.phase.filed = true)
  | removes (k : Fin e) (id : Nat) (shared : t = s.remove k id)
      (filings : removals f.deferred = (k, id) :: removals h.deferred) (aborts : h.aborts = f.aborts)
      (behind : h.phase.filed = true)
  | aborted (listed : i ∈ s.hits) (registries : t.registries = s.registries) (hits : t.hits = s.hits.erase i)
      (filings : removals h.deferred = removals f.deferred) (aborts : h.aborts = f.aborts + 1)
      (onwards : f.phase.filed = true → h.phase.filed = true)

variable {s} {f h : Flow e}

theorem perform_filing {d : Deferred e} {ds : List (Deferred e)} (stack : f.deferred = d :: ds)
    (back : f.phase = .returning) (moved : perform s { f with deferred := ds } d = some (t, h)) : Filing i s t f h := by
  cases d with
  | releaseSlot =>
    obtain ⟨taken, same⟩ := guarded moved
    cases same
    apply Filing.keeps <;> simp [stack]
  | remove k id =>
    cases moved
    apply Filing.removes k id rfl <;> simp [stack, back, Phase.filed]
  | _ =>
    cases moved
    apply Filing.keeps <;> simp [stack]

theorem own_filing {a : Own e} (moved : own cap v6 i s f a = some (t, h)) : Filing i s t f h := by
  cases a with
  | request =>
    obtain ⟨here, moved⟩ := Option.ite_none_right_eq_some.1 moved
    split at moved <;> cases moved <;> apply Filing.keeps <;> simp [here, Phase.filed]
  | register =>
    obtain ⟨here, moved⟩ := Option.ite_none_right_eq_some.1 moved
    split at moved
    · cases moved
      apply Filing.keeps <;> simp [Phase.filed]
    · cases moved
      apply Filing.files _ rfl <;> simp [here, Phase.filed]
  | unwind =>
    obtain ⟨here, moved⟩ := Option.ite_none_right_eq_some.1 moved
    split at moved
    · cases moved
      apply Filing.keeps <;> simp [Phase.filed]
    · rename_i stack
      exact perform_filing stack here moved
  | abort =>
    obtain ⟨listed, same⟩ := guarded moved
    cases same
    apply Filing.aborted (List.contains_iff_mem.1 listed) <;> simp
  | prepare env peek =>
    obtain ⟨here, same⟩ := guarded moved
    cases same
    cases v6 i <;> apply Filing.keeps <;> simp [here, Flow.prepare, Phase.filed]
  | preDial ok | createEndpoint ok =>
    obtain ⟨here, same⟩ := guarded moved
    cases same
    cases ok <;> apply Filing.keeps <;> simp [here, Flow.preDial, Flow.createEndpoint, Phase.filed]
  | dial ok =>
    obtain ⟨here, same⟩ := guarded moved
    cases same
    unfold Flow.dial
    split <;> apply Filing.keeps <;> simp [Phase.filed]
  | _ =>
    obtain ⟨here, same⟩ := guarded moved
    cases same
    apply Filing.keeps <;> simp [here, Phase.filed]

structure Filed (i : Fin n) (s : Shared n e m) (f : Flow e) : Prop where
  entry : ∀ k id, s.entry k id = some i → id ≤ (s.registries k).seq ∧ (k, id) ∈ removals f.deferred
  once : f.aborts + s.hits.count i ≤ 1
  gone : 0 < f.aborts + s.hits.count i → f.phase.filed = true ∧ ∀ k id, s.entry k id ≠ some i

theorem Flow.Sound.removal_unique (sound : f.Sound) {x y : Fin e × Nat} (first : x ∈ removals f.deferred)
    (second : y ∈ removals f.deferred) : x = y := by
  have few : (removals f.deferred).length ≤ 1 := by
    have := sound.filings
    split at this <;> omega
  match removals f.deferred, few, first, second with
  | [z], _, first, second => rw [List.mem_singleton.1 first, List.mem_singleton.1 second]

theorem Flow.Sound.filed_of_mem (sound : f.Sound) {x : Fin e × Nat} (member : x ∈ removals f.deferred) :
    f.phase.filed = true := by
  by_contra outside
  have none := sound.filings
  rw [if_neg outside] at none
  exact absurd (List.length_pos_of_mem member) (by omega)

theorem entry_congr (registries : t.registries = s.registries) (k : Fin e) (id : Nat) :
    t.entry k id = s.entry k id := by
  simp [Shared.entry, registries]

theorem Filed.mono (filed : Filed i s f) (entries : ∀ k id, t.entry k id = some i → s.entry k id = some i)
    (seqs : ∀ k, (s.registries k).seq ≤ (t.registries k).seq) (stack : removals h.deferred = removals f.deferred)
    (marks : h.aborts + t.hits.count i = f.aborts + s.hits.count i)
    (onwards : f.phase.filed = true → h.phase.filed = true) : Filed i t h := by
  constructor
  · intro k id found
    obtain ⟨older, listed⟩ := filed.entry k id (entries k id found)
    rw [stack]
    exact ⟨older.trans (seqs k), listed⟩
  · rw [marks]
    exact filed.once
  · intro marked
    rw [marks] at marked
    obtain ⟨before, nowhere⟩ := filed.gone marked
    exact ⟨onwards before, fun k id found => nowhere k id (entries k id found)⟩

theorem Filed.same_registries (filed : Filed i s f) (registries : t.registries = s.registries)
    (stack : removals h.deferred = removals f.deferred)
    (marks : h.aborts + t.hits.count i = f.aborts + s.hits.count i)
    (onwards : f.phase.filed = true → h.phase.filed = true) : Filed i t h := by
  apply filed.mono _ _ stack marks onwards
  · intro k id found
    exact (entry_congr registries k id).symm.trans found
  · intro k
    rw [registries]

theorem Filed.own (filed : Filed i s f) (sound : f.Sound) (change : Filing i s t f h) : Filed i t h := by
  cases change with
  | keeps registries hits stack aborts onwards =>
    exact filed.same_registries registries stack (by rw [aborts, hits]) onwards
  | files k shared stack aborts before behind =>
    subst shared
    have unmarked : f.aborts + s.hits.count i = 0 := by
      by_contra marked
      have := (filed.gone (by omega)).1
      simp [before] at this
    constructor
    · intro j id found
      rw [stack]
      rw [entry_add] at found
      split at found
      · rename_i own
        obtain ⟨rfl, rfl⟩ := own
        exact ⟨by simp [Shared.add, Shared.register, Shared.nextId], List.mem_cons_self⟩
      · obtain ⟨older, listed⟩ := filed.entry j id found
        exact ⟨older.trans (seq_add s k i j), List.mem_cons_of_mem _ listed⟩
    · rw [aborts]
      exact filed.once
    · intro marked
      rw [aborts] at marked
      exact absurd unmarked marked.ne'
  | removes k id shared stack aborts behind =>
    subst shared
    have nothing : ∀ j other, (s.remove k id).entry j other ≠ some i := by
      intro j other found
      rw [entry_remove] at found
      split at found
      · cases found
      · rename_i apart
        -- the flow had that one entry and is taking it out
        have same := sound.removal_unique (filed.entry j other found).2 (by rw [stack]; exact List.mem_cons_self)
        exact apart (Prod.mk.inj same)
    constructor
    · intro j other found
      exact absurd found (nothing j other)
    · rw [aborts]
      exact filed.once
    · intro marked
      exact ⟨behind, nothing⟩
  | aborted listed registries hits stack aborts onwards =>
    have some_ := List.count_pos_iff.2 listed
    apply filed.same_registries registries stack _ onwards
    rw [aborts, hits, List.count_erase_self]
    omega

theorem Filed.frame {j : Fin n} {g : Flow e} (filed : Filed j s g) (other : j ≠ i) (change : Filing i s t f h) :
    Filed j t g := by
  cases change with
  | keeps registries hits => exact filed.same_registries registries rfl (by rw [hits]) id
  | files k shared =>
    subst shared
    apply filed.mono _ (seq_add s k i) rfl rfl id
    intro l x found
    rw [entry_add] at found
    split at found
    · exact absurd (Option.some.inj found).symm other
    · exact found
  | removes k id shared =>
    subst shared
    apply filed.mono _ (fun l => (seq_remove s k id l).ge) rfl rfl fun behind => behind
    intro l x found
    rw [entry_remove] at found
    split at found
    · cases found
    · exact found
  | aborted listed registries hits =>
    exact filed.same_registries registries rfl (by rw [hits, List.count_erase_of_ne other]) id

theorem mem_hits {k : Fin e} {hit : Fin n → Bool} :
    i ∈ values (some (KeyedTables.filter (fun _ i => hit i) (s.registries k).flows)) ↔
      hit i = true ∧ ∃ id, s.entry k id = some i := by
  simp only [mem_values, get_filter, Shared.entry]
  constructor
  · intro found
    obtain ⟨id, found, goes⟩ := found
    exact ⟨goes, id, found⟩
  · intro found
    obtain ⟨goes, id, found⟩ := found
    exact ⟨id, found, goes⟩

variable {l : Fin n → Flow e}

theorem count_hits (held : ∀ i, (l i).Sound ∧ Filed i s (l i)) (k : Fin e) (hit : Fin n → Bool)
    (i : Fin n) : (values (some (KeyedTables.filter (fun _ i => hit i) (s.registries k).flows))).count i ≤ 1 := by
  apply List.nodup_iff_count_le_one.1
  apply values_nodup
  intro x y j first second
  have one := ((held j).2.entry k x ((get_filter _ _ _ _).1 first).1).2
  have two := ((held j).2.entry k y ((get_filter _ _ _ _).1 second).1).2
  exact (Prod.mk.inj ((held j).1.removal_unique one two)).2

theorem Filed.abortMatching (held : ∀ i, (l i).Sound ∧ Filed i s (l i)) (k : Fin e)
    (hit : Fin n → Bool) (i : Fin n) : Filed i (s.abortMatching k hit) (l i) := by
  obtain ⟨sound, filed⟩ := held i
  have entries : ∀ j id, (s.abortMatching k hit).entry j id = some i → s.entry j id = some i := by
    intro j id found
    exact ((entry_abort s k hit j id i).1 found).1
  have counts : (s.abortMatching k hit).hits.count i = s.hits.count i +
      (values (some (KeyedTables.filter (fun _ i => hit i) (s.registries k).flows))).count i := List.count_append
  by_cases listed : i ∈ values (some (KeyedTables.filter (fun _ i => hit i) (s.registries k).flows))
  · obtain ⟨goes, id, found⟩ := mem_hits.1 listed
    obtain ⟨older, pending⟩ := filed.entry k id found
    have unmarked : (l i).aborts + s.hits.count i = 0 := by
      by_contra marked
      exact (filed.gone (by omega)).2 k id found
    have nothing : ∀ j other, (s.abortMatching k hit).entry j other ≠ some i := by
      intro j other still
      obtain ⟨there, stays⟩ := (entry_abort s k hit j other i).1 still
      have same := sound.removal_unique (filed.entry j other there).2 pending
      exact stays ⟨(Prod.mk.inj same).1, goes⟩
    constructor
    · intro j other still
      exact absurd still (nothing j other)
    · have := count_hits held k hit i
      omega
    · intro marked
      exact ⟨sound.filed_of_mem pending, nothing⟩
  · apply filed.mono entries (fun j => (seq_abort s k hit j).ge) rfl _ fun behind => behind
    rw [counts, List.count_eq_zero_of_not_mem listed, Nat.add_zero]

theorem outer_filed {b : Outer A e m} (moved : outer dst s b = some t)
    (held : ∀ i, (l i).Sound ∧ Filed i s (l i)) (i : Fin n) : Filed i t (l i) := by
  cases b with
  | abortMatching k match_ =>
    cases moved
    exact Filed.abortMatching held k _ i
  | udp j =>
    obtain ⟨_, same⟩ := guarded moved
    subst same
    unfold Shared.udpNext
    split <;> exact (held i).2.same_registries rfl rfl rfl fun behind => behind
  | close =>
    cases moved
    exact (held i).2.same_registries rfl rfl rfl fun behind => behind

theorem filed_linked :
    Linked (moves (e := e) (m := m) cap v6 dst) fun i s f => f.Sound ∧ Filed i s f where
  own _ _ _ _ _ _ moved held := ⟨own_sound held.1 moved, held.2.own held.1 (own_filing moved)⟩
  frame _ _ _ _ _ _ _ _ moved other held := ⟨held.1, held.2.frame other (own_filing moved)⟩
  outer _ _ _ _ moved held i := ⟨(held i).1, outer_filed moved held i⟩

end Registries

section Runs
variable {p q : Pool (Shared n e m) (Flow e) n} {as : List (Action (Own e) (Outer A e m) n)}
  {a : Action (Own e) (Outer A e m) n}

def Flow.filing (f : Flow e) : Int := if f.phase.filed then 1 else 0

theorem filing_unit (f : Flow e) : 0 ≤ f.filing ∧ f.filing ≤ 1 := by
  unfold Flow.filing
  split <;> simp

theorem outer_seq {s t : Shared n e m} {b : Outer A e m} (moved : outer dst s b = some t) (k : Fin e) :
    (t.registries k).seq = (s.registries k).seq := by
  cases b with
  | abortMatching j match_ =>
    cases moved
    exact seq_abort s j _ k
  | udp j =>
    obtain ⟨_, same⟩ := guarded moved
    rw [← same]
    unfold Shared.udpNext
    split <;> rfl
  | close =>
    cases moved
    rfl

def Numbered (p : Pool (Shared n e m) (Flow e) n) : Prop :=
  ∀ k, ((p.shared.registries k).seq : Int) ≤ p.total Flow.filing

theorem Filing.seq {i : Fin n} {s t : Shared n e m} {f h : Flow e} (change : Filing i s t f h) (k : Fin e) :
    ((t.registries k).seq : Int) - (s.registries k).seq ≤ h.filing - f.filing := by
  have grows (onwards : f.phase.filed = true → h.phase.filed = true) : f.filing ≤ h.filing := by
    cases before : f.phase.filed <;> simp_all [Flow.filing]
    split <;> simp
  cases change with
  | keeps registries _ _ _ onwards | aborted _ registries _ _ _ onwards =>
    rw [registries]
    have := grows onwards
    omega
  | files j shared _ _ before behind =>
    subst shared
    by_cases same : k = j
    · subst same
      simp [Flow.filing, before, behind, Shared.add, Shared.register, Shared.nextId]
    · simp [Flow.filing, before, behind, Shared.add, Shared.register, same]
  | removes j id shared _ _ behind =>
    subst shared
    rw [seq_remove]
    have := grows fun _ => behind
    omega

theorem numbered_step (numbered : Numbered p) (taken : step (moves cap v6 dst) p a = some q) : Numbered q := by
  intro k
  have before := numbered k
  cases a with
  | own i a =>
    obtain ⟨s, f, moved, rfl⟩ := step_own taken
    have change := (own_filing moved).seq k
    rw [total_after]
    simp only [after_shared]
    omega
  | outer b =>
    obtain ⟨s, moved, rfl⟩ := step_outer taken
    change ((s.registries k).seq : Int) ≤ p.total Flow.filing
    rwa [outer_seq moved]

structure Consistent (cap : Nat) (p : Pool (Shared n e m) (Flow e) n) : Prop where
  flows : ∀ i, (p.locals i).Sound ∧ Filed i p.shared (p.locals i)
  shares : p.shared.tcpShare = p.total Flow.share
  within : p.shared.slots ≤ cap
  numbered : Numbered p

theorem consistent_start (cap : Nat) : Consistent cap (start n e m) where
  flows i := by
    constructor <;> constructor <;> simp [start, Phase.answered, Phase.filed, Shared.entry]
  shares := by simp [start, Pool.total, udpActive, udpActiveUDP, udpOpened]
  within := Nat.zero_le _
  numbered k := by simp [start, Pool.total, Flow.filing, Phase.filed]

theorem consistent_step (held : Consistent cap p)
    (taken : step (moves cap v6 dst) p a = some q) : Consistent cap q where
  flows := filed_linked.step taken held.flows
  shares := share_balanced.step taken (fun _ => trivial) held.shares
  within := by
    cases a with
    | own i a =>
      obtain ⟨s, f, moved, rfl⟩ := step_own taken
      exact own_bounded moved held.within
    | outer b =>
      obtain ⟨s, moved, rfl⟩ := step_outer taken
      exact outer_bounded moved held.within
  numbered := numbered_step held.numbered taken

theorem consistent_run (reached : run (step (moves cap v6 dst)) (start n e m) as = some p) : Consistent cap p :=
  run_invariant (consistent_start cap) (fun _ _ _ held taken => consistent_step held taken) reached

def Small (x : Int) (flows : Nat) : Prop := 0 ≤ x ∧ x ≤ flows

/-- The semaphore and the counters of the status are exactly what the flows account for, of the slots at most
    one for each. Every counter stays below the number of flows, so that none of 32 bits overflows. -/
structure Accounted (cap : Nat) (p : Pool (Shared n e m) (Flow e) n) : Prop where
  slots : (p.shared.slots : Int) = p.total Flow.slot
  within : p.shared.slots ≤ cap
  activeConns : p.shared.activeConns = p.total Flow.active + ∑ j, udpActive (p.shared.udp j)
  activeTCPConns : p.shared.activeTCPConns = p.total Flow.activeTCP
  activeUDPConns : p.shared.activeUDPConns = ∑ j, udpActiveUDP (p.shared.udp j)
  totalConns : p.shared.totalConns = p.total Flow.opened + ∑ j, udpOpened (p.shared.udp j)
  single : ∀ i, Small (p.locals i).slot 1
  small : Small p.shared.activeConns (n + m) ∧ Small p.shared.activeTCPConns n ∧ Small p.shared.activeUDPConns m ∧
    Small p.shared.totalConns (n + m) ∧ ∀ k, (p.shared.registries k).seq ≤ n

theorem Flow.Sound.units {f : Flow e} (sound : f.Sound) : Small f.slot 1 ∧ Small f.active 1 ∧ Small f.activeTCP 1 ∧
    Small f.opened 1 := by
  cases sound
  refine ⟨?_, ?_, ?_, ?_⟩
  · simp only [Small, Flow.slot]
    omega
  · unfold Small Flow.active
    cases here : f.phase <;> simp_all [Phase.filed]
  · unfold Small Flow.activeTCP
    cases here : f.phase <;> simp_all [Phase.filed]
  · have few := List.count_le_length (a := false) (l := f.answers)
    unfold Small Flow.opened
    cases here : f.phase <;> simp_all [Phase.answered]

theorem udp_units (done : Nat) : Small (udpActive done) 1 ∧ Small (udpActiveUDP done) 1 ∧ Small (udpOpened done) 1 := by
  unfold Small udpActive udpActiveUDP udpOpened
  refine ⟨?_, ?_, ?_⟩ <;> split <;> simp

theorem Consistent.accounted (held : Consistent cap p) : Accounted cap p := by
  have shares := held.shares
  rw [total_share] at shares
  simp only [Shared.tcpShare, Prod.mk.injEq] at shares
  obtain ⟨slots, active, activeTCP, opened, activeUDP⟩ := shares
  have unit (i : Fin n) := (held.flows i).1.units
  have udp (j : Fin m) := udp_units (p.shared.udp j)
  have tcpActive := sum_bounds fun i => (unit i).2.1
  have tcpOpened := sum_bounds fun i => (unit i).2.2.2
  have udpActive := sum_bounds fun j => (udp j).1
  have udpActiveUDP := sum_bounds fun j => (udp j).2.1
  have udpOpened := sum_bounds fun j => (udp j).2.2
  refine ⟨slots, held.within, by omega, activeTCP, by omega, by omega, fun i => (unit i).1, ?_, ?_, ?_, ?_, ?_⟩
  · change _ = p.total _ at active
    unfold Pool.total at active
    unfold Small
    omega
  · rw [activeTCP]
    exact sum_bounds fun i => (unit i).2.2.1
  · unfold Small
    omega
  · unfold Pool.total at opened
    unfold Small
    omega
  · intro k
    have filed := held.numbered k
    have few := sum_bounds (g := fun i => (p.locals i).filing) fun i => filing_unit _
    unfold Pool.total at filed
    omega

/-- In every order of the flows' moves and of what happens around them, no more flows run than the
    semaphore allows and every counter counts the flows that are in the part of their life it is
    about. -/
theorem flows_accounted (reached : run (step (moves cap v6 dst)) (start n e m) as = some p) : Accounted cap p :=
  (consistent_run reached).accounted

def saturated (i j : Fin n) (k : Fin e) (l : Fin m) : List (Action (Own e) (Outer A e m) n) :=
  [.own i .request, .own i (.prepare (some k) false), .own j .request, .own i (.createEndpoint true), .outer (.udp l),
    .own i .openActive, .own i .openTCP, .own j .waitExpired, .own i .openTotal, .own i .register]

theorem saturated_accounted : ∃ p, run (step (moves 1 (fun _ => false) id)) (start 2 1 1) (saturated 0 1 0 0) = some p ∧
    p.shared.slots = 1 ∧ p.shared.activeConns = 2 ∧ Accounted 1 p := by
  have reached : run (step (moves 1 (fun _ => false) id)) (start 2 1 1) (saturated 0 1 0 0) = some _ := rfl
  exact ⟨_, reached, rfl, rfl, flows_accounted reached⟩

structure Released (p : Pool (Shared n e m) (Flow e) n) (i : Fin n) : Prop where
  answered : (p.locals i).answers.length = 1
  connCtx : (p.locals i).connCtx ≠ .opened
  preDialed : (p.locals i).preDialed ≠ .opened
  remote : (p.locals i).remote ≠ .opened
  endpoint : (p.locals i).endpoint ≠ .opened
  unknown : ∀ k id, p.shared.entry k id ≠ some i

theorem Consistent.released (held : Consistent cap p) {i : Fin n} (ended : (p.locals i).phase = .ended) :
    Released p i := by
  obtain ⟨sound, filed⟩ := held.flows i
  have nothing : (p.locals i).deferred = [] := sound.idle (.inr (.inr ended))
  constructor
  · have := sound.answers
    simpa [ended, Phase.answered] using this
  · intro opened
    simpa [nothing] using sound.connCtx opened
  · intro opened
    simpa [nothing] using sound.preDialed opened
  · intro opened
    simpa [ended] using sound.remote opened
  · intro opened
    simpa [nothing] using sound.endpoint opened
  · intro k id found
    simpa [nothing] using (filed.entry k id found).2

structure Tracked (p : Pool (Shared n e m) (Flow e) n) : Prop where
  known : ∀ k id i, p.shared.entry k id = some i →
    (p.locals i).phase.filed = true ∧ (p.locals i).phase ≠ .ended ∧ (p.locals i).aborts = 0 ∧ i ∉ p.shared.hits
  resets : ∀ i, (p.locals i).aborts + p.shared.hits.count i ≤ 1
  released : ∀ i, (p.locals i).phase = .ended → Released p i

theorem flows_tracked (reached : run (step (moves cap v6 dst)) (start n e m) as = some p) : Tracked p := by
  have held := consistent_run reached
  constructor
  · intro k id i found
    obtain ⟨sound, filed⟩ := held.flows i
    have pending := (filed.entry k id found).2
    have unmarked : (p.locals i).aborts + p.shared.hits.count i = 0 := by
      by_contra marked
      exact (filed.gone (by omega)).2 k id found
    refine ⟨sound.filed_of_mem pending, ?_, by omega, ?_⟩
    · intro ended
      exact (held.released ended).unknown k id found
    · intro listed
      have := List.count_pos_iff.2 listed
      omega
  · intro i
    exact (held.flows i).2.once
  · intro i ended
    exact held.released ended

def resetRun (i j : Fin n) (k : Fin e) (l : Fin m) : List (Action (Own e) (Outer A e m) n) :=
  saturated i j k l ++ [.outer (.abortMatching k fun _ => true), .own i .abort, .own i (.dial false)] ++
    List.replicate 8 (.own i .unwind)

theorem resetRun_tracked : ∃ p, run (step (moves 1 (fun _ => false) id)) (start 2 1 1) (resetRun 0 1 0 0) = some p ∧
    (p.locals 0).phase = .ended ∧ (p.locals 0).aborts = 1 ∧ Tracked p := by
  have reached : run (step (moves 1 (fun _ => false) id)) (start 2 1 1) (resetRun 0 1 0 0) = some _ := rfl
  exact ⟨_, reached, rfl, rfl, flows_tracked reached⟩

end Runs

section Draining
variable {p q : Pool (Shared n e m) (Flow e) n} {as : List (Action (Own e) (Outer A e m) n)}

def Flow.final (f : Flow e) : Prop := f.phase = .unborn ∨ f.phase = .ended

@[simp] def Phase.distance : Phase → Nat
  | .unborn => 15
  | .waiting => 14
  | .admitted => 13
  | .preDialing => 12
  | .accepting => 11
  | .accepted => 10
  | .countedActive => 9
  | .countedTCP => 8
  | .counted => 7
  | .registered => 6
  | .captured => 5
  | .bridging => 4
  | .draining => 3
  | .returning => 1
  | .ended => 0

/-- How far a flow is from its end: the calls it will defer are fewer than ten for each phase. -/
@[simp] def Flow.rank (f : Flow e) : Nat := 10 * f.phase.distance + f.deferred.length

theorem unwinds (v6 : Fin n → Bool) (held : Consistent cap p) {i : Fin n} (here : (p.locals i).phase = .returning) :
    ∃ s f, own cap v6 i p.shared (p.locals i) .unwind = some (s, f) ∧ f.rank < (p.locals i).rank := by
  cases stack : (p.locals i).deferred with
  | nil =>
    refine ⟨p.shared, (p.locals i).goto .ended, by simp [own, here, stack], ?_⟩
    simp [here, stack]
  | cons d ds =>
    cases d with
    | releaseSlot =>
      have share := le_total (g := Flow.slot) (fun f => by simp) p i
      have slots := held.accounted.slots
      simp only [Flow.slot, stack, List.count_cons_self] at share
      have taken : 0 < p.shared.slots := by omega
      simp [own, here, stack, perform, taken]
    | _ => simp [own, here, stack, perform]

/-- Whatever the others do, a flow that has begun and not ended has a move of its own towards its end. -/
theorem progress (v6 : Fin n → Bool) (held : Consistent cap p) {i : Fin n} (unfinished : ¬ (p.locals i).final) :
    ∃ a s f, own cap v6 i p.shared (p.locals i) a = some (s, f) ∧ f.rank < (p.locals i).rank := by
  cases here : (p.locals i).phase with
  | unborn => exact absurd (.inl here) unfinished
  | ended => exact absurd (.inr here) unfinished
  | waiting => exact ⟨.waitExpired, _, _, if_pos here, by simp [here]⟩
  | admitted =>
    refine ⟨.prepare none false, _, _, if_pos ⟨here, by simp⟩, ?_⟩
    cases v6 i <;> simp [Flow.prepare, here] <;> omega
  | preDialing => exact ⟨.preDial false, _, _, if_pos here, by simp [Flow.preDial, here]⟩
  | accepting => exact ⟨.createEndpoint false, _, _, if_pos here, by simp [Flow.createEndpoint, here]⟩
  | accepted => exact ⟨.openActive, _, _, if_pos here, by simp [here]⟩
  | countedActive => exact ⟨.openTCP, _, _, if_pos here, by simp [here]⟩
  | countedTCP =>
    refine ⟨.openTotal, _, _, if_pos here, ?_⟩
    simp [here]
    omega
  | counted =>
    cases env : (p.locals i).env with
    | none =>
      refine ⟨.register, p.shared, (p.locals i).goto .registered, by simp [own, here, env], ?_⟩
      simp [here]
    | some k =>
      refine ⟨.register, p.shared.add k i, ((p.locals i).later (.remove k (p.shared.nextId k))).goto .registered,
        by simp [own, here, env], ?_⟩
      simp [here]
      omega
  | registered =>
    cases peek : (p.locals i).peek with
    | true => exact ⟨.serve, _, _, if_pos ⟨here, peek⟩, by simp [here]⟩
    | false =>
      refine ⟨.dial false, _, _, if_pos ⟨here, peek⟩, ?_⟩
      unfold Flow.dial
      split <;> simp [here]
      omega
  | captured => exact ⟨.served, _, _, if_pos here, by simp [here]⟩
  | bridging => exact ⟨.firstDone, _, _, if_pos here, by simp [here]⟩
  | draining => exact ⟨.secondDone, _, _, if_pos here, by simp [here]⟩
  | returning =>
    obtain ⟨s, f, moved, nearer⟩ := unwinds v6 held here
    exact ⟨.unwind, s, f, moved, nearer⟩

structure Quiet (p : Pool (Shared n e m) (Flow e) n) : Prop where
  slots : p.shared.slots = 0
  activeTCPConns : p.shared.activeTCPConns = 0
  activeConns : p.shared.activeConns = ∑ j, udpActive (p.shared.udp j)
  entries : ∀ k id, p.shared.entry k id = none

theorem Consistent.quiet (held : Consistent cap p) (final : ∀ i, (p.locals i).final) : Quiet p := by
  have idle : ∀ i, (p.locals i).deferred = [] := by
    intro i
    rcases final i with here | here
    · exact (held.flows i).1.idle (.inl here)
    · exact (held.flows i).1.idle (.inr (.inr here))
  have uncounted : ∀ i, (p.locals i).phase ≠ .countedActive ∧ (p.locals i).phase ≠ .countedTCP := by
    intro i
    rcases final i with here | here <;> simp [here]
  have accounted := held.accounted
  have slots := total_zero (p := p) (g := Flow.slot) fun i => by simp [idle]
  have active := total_zero (p := p) (g := Flow.active) fun i => by simp [idle, uncounted]
  have activeTCP := total_zero (p := p) (g := Flow.activeTCP) fun i => by simp [idle, uncounted]
  constructor
  · have := accounted.slots
    omega
  · rw [accounted.activeTCPConns, activeTCP]
  · rw [accounted.activeConns, active, zero_add]
  · intro k id
    by_contra found
    obtain ⟨i, found⟩ := Option.ne_none_iff_exists'.1 found
    simpa [idle] using ((held.flows i).2.entry k id found).2

/-- From every state that is reached the flows can all come to their end by moves of their own,
    and then the semaphore is free, the counters are back and the registries are empty. -/
theorem flows_drain (reached : run (step (moves cap v6 dst)) (start n e m) as = some p) :
    ∃ bs q, onlyOwn bs ∧ run (step (moves cap v6 dst)) p bs = some q ∧ (∀ i, (q.locals i).final) ∧ Quiet q := by
  obtain ⟨bs, q, own, later, held, final⟩ := drains (moves cap v6 dst) Flow.final Flow.rank
    (fun _ _ _ held taken => consistent_step held taken)
    (fun p i held unfinished => progress v6 held unfinished) p (consistent_run reached)
  exact ⟨bs, q, own, later, final, held.quiet final⟩

theorem saturated_drains : ∃ p, run (step (moves 1 (fun _ => false) id)) (start 2 1 1) (saturated 0 1 0 0) = some p ∧
    ∃ bs q, onlyOwn bs ∧ run (step (moves 1 (fun _ => false) id)) p bs = some q ∧ (∀ i, (q.locals i).final) ∧
      Quiet q := by
  have reached : run (step (moves 1 (fun _ => false) id)) (start 2 1 1) (saturated 0 1 0 0) = some _ := rfl
  exact ⟨_, reached, flows_drain reached⟩

end Draining

end TcpFlows
