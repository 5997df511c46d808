import RootShell.ActiveForwards

/-!
Forwarding against Close and against itself. A path has one forwarder because the remote
binds it once and a call looks for it in the table first; what is opened is closed because
it stands in a table until somebody takes it out to close it.
-/
namespace ForwardSafety
open ByteLines Interleaving KeyedTables StreamLocalForwards ActiveForwards
universe u
variable {P : Type u} [DecidableEq P] {n conn ref : Nat} {path : Fin n → P} {s t : Bridge P n} {a : Action P n}
  {i : Fin n}

/-- The remote binds only a path that is not bound, nothing is filed once Close has taken the
    tables, and no listener in the table fails while another call that found the path free
    waits for the remote. -/
def Allowed (path : Fin n → P) (s : Bridge P n) : Action P n → Prop
  | .listen i true => path i ∉ s.bound
  | .publish _ | .register _ => s.closer ≠ .swept
  | .acceptFail i => get s.forwarders (path i) = some i → ∀ j, path j = path i → s.enables j ≠ .listening
  | _ => True

section Exclusion

def Open (path : Fin n → P) (s : Bridge P n) (i : Fin n) : Prop :=
  s.listeners i = .live ∨ get s.forwarders (path i) = some i

/-- What a call knows of its path: while it waits for the remote, the table has at most a
    forwarder that still listens, and once it has its listener the table has none. -/
structure Sole (path : Fin n → P) (s : Bridge P n) : Prop where
  bound : ∀ i, s.listeners i = .live → path i ∈ s.bound
  waiting : ∀ i, s.enables i = .listening → ∀ j, get s.forwarders (path i) = some j → s.listeners j = .live
  filing : ∀ i, s.enables i = .listened → get s.forwarders (path i) = none
  exclusive : ∀ i j, Open path s i → Open path s j → path i = path j → i = j

theorem sole_start (path : Fin n → P) : Sole path (start P n) := by
  constructor <;> simp [start, Open]

theorem Sole.enable (sole : Sole path s) {next : Enable} (after : next ≠ .listening ∧ next ≠ .listened) :
    Sole path (s.enable i next) := by
  refine ⟨sole.bound, fun j phase => ?_, fun j phase => ?_, sole.exclusive⟩
  · exact sole.waiting j (update_other phase after.1).2
  · exact sole.filing j (update_other phase after.2).2

theorem Sole.check (sole : Sole path s) (i : Fin n) : Sole path (s.check (path i) i) := by
  have reads (q : P) : get (some (s.forwarders.getD ∅)) q = get s.forwarders q := by
    cases s.forwarders <;> rfl
  have made : Sole path { s with forwarders := some (s.forwarders.getD ∅) } := by
    refine ⟨sole.bound, fun j phase k found => ?_, fun j phase => ?_, fun j k first second => ?_⟩
    · exact sole.waiting j phase k ((reads _).symm.trans found)
    · exact (reads _).trans (sole.filing j phase)
    · exact sole.exclusive j k (first.imp id (reads _).symm.trans) (second.imp id (reads _).symm.trans)
  unfold Bridge.check
  dsimp only
  split
  · exact made.enable (by simp)
  · rename_i free
    have none : get (some (s.forwarders.getD ∅)) (path i) = none := by
      simpa [KeyedTables.get] using free
    refine ⟨made.bound, fun j phase k found => ?_, fun j phase => ?_, made.exclusive⟩
    · by_cases same : j = i
      · subst same
        cases none.symm.trans found
      · exact made.waiting j (by simpa [same] using phase) k found
    · exact made.filing j (update_other phase (by simp)).2

/-- A forwarder that is open has its path bound, or stands in the table for a call that waits. -/
theorem Sole.free (sole : Sole path s) {j : Fin n} (phase : s.enables i = .listening) (unbound : path i ∉ s.bound)
    (named : path j = path i) : ¬ Open path s j := by
  rintro (live | filed)
  · exact unbound (named ▸ sole.bound j live)
  · exact unbound (named ▸ sole.bound j (sole.waiting i phase j (named ▸ filed)))

theorem Sole.listen (sole : Sole path s) (filed : Filed path s) (phase : s.enables i = .listening)
    (unbound : path i ∉ s.bound) : Sole path (s.listen (path i) i) := by
  have before {j : Fin n} (other : j ≠ i) (opened : Open path (s.listen (path i) i) j) : Open path s j :=
    opened.imp (fun live => by simpa [Bridge.listen, other] using live) id
  refine ⟨fun j live => ?_, fun j waits k found => ?_, fun j waits => ?_, fun j k first second same => ?_⟩
  · by_cases same : j = i
    · exact same ▸ List.mem_cons_self
    · exact List.mem_cons_of_mem _
        (sole.bound j (by simpa [Bridge.listen, same] using live))
  · have live := sole.waiting j (update_other waits (by simp)).2 k found
    by_cases same : k = i <;> simp [Bridge.listen, same, live]
  · by_cases same : j = i
    · subst same
      change get s.forwarders (path j) = none
      refine Option.eq_none_iff_forall_ne_some.2 fun k found => ?_
      have named := (filed.own _ k found).1
      exact sole.free phase unbound named.symm (Or.inr (named ▸ found))
    · exact sole.filing j (by simpa [Bridge.listen, same] using waits)
  · by_cases left : j = i
    · by_cases right : k = i
      · rw [left, right]
      · exact absurd (before right second) (sole.free phase unbound (same.symm.trans (by rw [left])))
    · by_cases right : k = i
      · exact absurd (before left first) (sole.free phase unbound (same.trans (by rw [right])))
      · exact sole.exclusive j k (before left first) (before right second) same

theorem Sole.publish (sole : Sole path s) (filed : Filed path s) (phase : s.enables i = .listened) :
    Sole path (s.publish (path i) i) := by
  have live := filed.listened i phase
  unfold Bridge.publish
  split
  · exact ⟨sole.bound, sole.waiting, sole.filing, sole.exclusive⟩
  · rename_i table made
    have reads (q : P) : get (some (table.insert (path i) i)) q =
        if q = path i then some i else get s.forwarders q := by
      rw [get_insert, made]
    have before {j : Fin n}
        (opened : s.listeners j = .live ∨ get (some (table.insert (path i) i)) (path j) = some j) : Open path s j := by
      rcases opened with up | found
      · exact Or.inl up
      · rw [reads] at found
        split at found
        · cases found
          exact Or.inl live
        · exact Or.inr found
    refine ⟨sole.bound, fun j waits k found => ?_, fun j waits => ?_, fun j k first second => ?_⟩
    · change get (some (table.insert (path i) i)) (path j) = some k at found
      rw [reads] at found
      split at found
      · cases found
        exact live
      · exact sole.waiting j (update_other waits (by simp)).2 k found
    · obtain ⟨other, listens⟩ := update_other waits (by simp)
      change get (some (table.insert (path i) i)) (path j) = none
      rw [reads, if_neg]
      · exact sole.filing j listens
      · exact fun same => other (sole.exclusive j i (Or.inl (filed.listened j listens)) (Or.inl live) same)
    · exact sole.exclusive j k (before first) (before second)

theorem Sole.shrink (sole : Sole path s) {table : Option (Table P (Fin n))}
    (less : ∀ p j, get table p = some j → get s.forwarders p = some j) (dying : List (Fin n)) :
    Sole path { s with forwarders := table, dying := dying } := by
  refine ⟨sole.bound, fun i phase j found => sole.waiting i phase j (less _ j found), fun i phase => ?_,
    fun i j first second => sole.exclusive i j (first.imp id (less _ i)) (second.imp id (less _ j))⟩
  refine Option.eq_none_iff_forall_ne_some.2 fun j found => ?_
  cases (sole.filing i phase).symm.trans (less _ j found)

theorem Sole.drop (sole : Sole path s) {next : Listener} (down : next ≠ .live)
    (unawaited : ∀ j, s.enables j = .listening → get s.forwarders (path j) ≠ some i) :
    Sole path (s.drop (path i) i next) := by
  have live {j : Fin n} (up : (s.drop (path i) i next).listeners j = .live) : j ≠ i ∧ s.listeners j = .live := by
    by_cases same : j = i
    · subst same
      exact absurd (by simpa [Bridge.drop] using up) down
    · exact ⟨same, by simpa [Bridge.drop, same] using up⟩
  refine ⟨fun j up => ?_, fun j phase k found => ?_, sole.filing, fun j k first second => ?_⟩
  · obtain ⟨other, up⟩ := live up
    simp only [Bridge.drop]
    split
    · rename_i was
      have apart : path j ≠ path i := fun same => other (sole.exclusive j i (Or.inl up) (Or.inl was) same)
      exact (List.mem_erase_of_ne apart).2 (sole.bound j up)
    · exact sole.bound j up
  · have other : k ≠ i := by
      rintro rfl
      exact unawaited j phase found
    simpa [Bridge.drop, other] using sole.waiting j phase k found
  · exact sole.exclusive j k (first.imp (fun up => (live up).2) id) (second.imp (fun up => (live up).2) id)

theorem Sole.step (sole : Sole path s) (filed : Filed path s) (allowed : Allowed path s a)
    (moved : step path s a = some t) : Sole path t := by
  cases step_move moved with
  | begin phase =>
    refine sole.enable ?_
    split <;> simp
  | check phase => exact sole.check _
  | granted phase => exact sole.listen filed phase allowed
  | refused phase => exact sole.enable (by simp)
  | publish phase => exact sole.publish filed phase
  | @disable p i found =>
    refine sole.shrink (fun q j kept => ?_) _
    rw [get_delete] at kept
    split at kept
    · cases kept
    · exact kept
  | @closeForwarder i pending =>
    have gone : Sole path { s with dying := s.dying.erase i } := sole.shrink (fun _ _ found => found) _
    exact gone.drop (by simp) fun j _ found => (filed.own _ i found).2.2.1 pending
  | @acceptFail i phase =>
    have ended : Sole path (if s.listeners i = .live then s.drop (path i) i .failed else s) := by
      split
      · refine sole.drop (by simp) fun j waits found => ?_
        have named := (filed.own _ i found).1
        exact allowed (named ▸ found) j named waits
      · exact sole
    exact ⟨ended.bound, ended.waiting, ended.filing, ended.exclusive⟩
  | sweep phase =>
    have taken : Sole path { s with forwarders := none, dying := s.dying ++ values s.forwarders } :=
      sole.shrink (by simp) _
    exact ⟨taken.bound, taken.waiting, taken.filing, taken.exclusive⟩
  | accept | register | channelClose | closeConn | closeFlag =>
    exact ⟨sole.bound, sole.waiting, sole.filing, sole.exclusive⟩

end Exclusion

section Coverage

/-- Somebody will close the listener: the call that opened it files it, Close or Disable
    takes it from the table, or a call has it already. -/
def Kept (s : Bridge P n) (i : Fin n) : Prop :=
  s.enables i = .listened ∨ (∃ p, get s.forwarders p = some i) ∨ i ∈ s.dying

def Tracked (s : Bridge P n) (c : Nat) : Prop :=
  (∃ i, s.loops i = .holding c) ∨ (∃ r, get s.channels r = some c) ∨ c ∈ s.hanging

structure Covered (s : Bridge P n) : Prop where
  listener : ∀ i, (s.listeners i).held = true → Kept s i
  conn : ∀ c, c < s.accepted → c ∉ s.closedConns → Tracked s c
  fresh : ∀ r, s.nextRef < r → get s.channels r = none
  unstarted : ∀ i, s.enables i ≠ .returned → s.loops i = .idle
  table : ∀ i, s.enables i = .listening ∨ s.enables i = .listened → s.closer ≠ .swept → s.forwarders.isSome = true
  swept : s.closer = .swept → (∀ p, get s.forwarders p = none) ∧ ∀ r, get s.channels r = none
  alive : s.panicked = false

theorem covered_start (P : Type u) [DecidableEq P] (n : Nat) : Covered (start P n) := by
  constructor <;> simp [start, Listener.held]

theorem Covered.enable (covered : Covered s) {next : Enable} (running : s.enables i ≠ .returned)
    (before : s.enables i ≠ .listened) (after : next ≠ .listening ∧ next ≠ .listened) :
    Covered (s.enable i next) := by
  refine ⟨?_, covered.conn, covered.fresh, ?_, ?_, covered.swept, covered.alive⟩
  · intro j held
    rcases covered.listener j held with own | filed
    · exact Or.inl (update_kept own before _)
    · exact Or.inr filed
  · intro j moving
    by_cases same : j = i
    · exact same ▸ covered.unstarted i running
    · exact covered.unstarted j (by simpa [same] using moving)
  · intro j phase
    by_cases same : j = i
    · subst same
      simp [after] at phase
    · exact covered.table j (by simpa [same] using phase)

theorem Covered.check (covered : Covered s) (phase : s.enables i = .checking) (p : P) : Covered (s.check p i) := by
  have reads (q : P) : get (some (s.forwarders.getD ∅)) q = get s.forwarders q := by
    cases s.forwarders <;> rfl
  refine ⟨?_, covered.conn, covered.fresh, ?_, fun _ _ _ => rfl, ?_, covered.alive⟩
  · intro j held
    rcases covered.listener j held with own | ⟨q, filed⟩ | pending
    · exact Or.inl (update_kept own (by simp [phase]) _)
    · exact Or.inr (Or.inl ⟨q, (reads q).trans filed⟩)
    · exact Or.inr (Or.inr pending)
  · intro j moving
    by_cases same : j = i
    · exact same ▸ covered.unstarted i (by simp [phase])
    · exact covered.unstarted j (by simpa [Bridge.check, same] using moving)
  · intro swept
    exact ⟨fun q => (reads q).trans ((covered.swept swept).1 q), (covered.swept swept).2⟩

theorem Covered.listen (covered : Covered s) (phase : s.enables i = .listening) (p : P) : Covered (s.listen p i) := by
  refine ⟨?_, covered.conn, covered.fresh, ?_, fun _ _ => covered.table i (Or.inl phase), covered.swept, covered.alive⟩
  · intro j held
    by_cases same : j = i
    · exact Or.inl (by simp [Bridge.listen, same])
    · rcases covered.listener j (by simpa [Bridge.listen, same] using held) with
        own | filed
      · exact Or.inl (by simpa [Bridge.listen, same] using own)
      · exact Or.inr filed
  · intro j moving
    by_cases same : j = i
    · exact same ▸ covered.unstarted i (by simp [phase])
    · exact covered.unstarted j (by simpa [Bridge.listen, same] using moving)

theorem Covered.publish (covered : Covered s) (phase : s.enables i = .listened)
    (running : s.closer ≠ .swept) (free : get s.forwarders (path i) = none) : Covered (s.publish (path i) i) := by
  obtain ⟨table, made⟩ := Option.isSome_iff_exists.1 (covered.table i (Or.inr phase) running)
  simp only [Bridge.publish, made]
  rw [made] at free
  refine ⟨?_, ?_, covered.fresh, ?_, fun _ _ _ => rfl, fun swept => absurd swept running,
    covered.alive⟩
  · intro j held
    by_cases same : j = i
    · exact Or.inr (Or.inl ⟨path i, by simp [get_insert, same]⟩)
    · rcases covered.listener j held with own | ⟨p, filed⟩ | pending
      · exact Or.inl (by simpa [same] using own)
      · rw [made] at filed
        have other : p ≠ path i := by
          rintro rfl
          rw [free] at filed
          cases filed
        exact Or.inr (Or.inl ⟨p, by simpa [get_insert, other] using filed⟩)
      · exact Or.inr (Or.inr pending)
  · intro c accepted unclosed
    rcases covered.conn c accepted unclosed with ⟨j, holding⟩ | filed
    · exact Or.inl ⟨j, update_kept holding (by simp [covered.unstarted i, phase]) _⟩
    · exact Or.inr filed
  · intro j moving
    have other : j ≠ i := by
      rintro rfl
      simp at moving
    simpa [other] using
      covered.unstarted j (by simpa [other] using moving)

theorem Covered.disable (covered : Covered s) {p : P} (filed : get s.forwarders p = some i) :
    Covered { s with forwarders := delete s.forwarders p, dying := i :: s.dying } := by
  refine ⟨?_, covered.conn, covered.fresh, covered.unstarted, ?_, ?_, covered.alive⟩
  · intro j held
    rcases covered.listener j held with own | ⟨q, found⟩ | pending
    · exact Or.inl own
    · by_cases same : q = p
      · rw [same, filed] at found
        exact Or.inr (Or.inr (by simp [Option.some.inj found]))
      · exact Or.inr (Or.inl ⟨q, by simpa [get_delete, same] using found⟩)
    · exact Or.inr (Or.inr (List.mem_cons_of_mem i pending))
  · intro j phase running
    simpa [delete] using covered.table j phase running
  · intro swept
    rw [(covered.swept swept).1 p] at filed
    cases filed

theorem Covered.closeForwarder (covered : Covered s) (p : P) (i : Fin n) : Covered (s.closeForwarder p i) := by
  refine ⟨?_, covered.conn, covered.fresh, covered.unstarted, covered.table, covered.swept, covered.alive⟩
  intro j held
  have other : j ≠ i := by
    rintro rfl
    simp [Bridge.closeForwarder, Bridge.drop, Listener.held] at held
  rcases covered.listener j (by simpa [Bridge.closeForwarder, Bridge.drop, other] using held) with
    own | filed | pending
  · exact Or.inl own
  · exact Or.inr (Or.inl filed)
  · exact Or.inr (Or.inr ((List.mem_erase_of_ne other).2 pending))

theorem Covered.accept (covered : Covered s) (phase : s.loops i = .accepting) :
    Covered ({ s with accepted := s.accepted + 1 }.loop i (.holding s.accepted)) := by
  refine ⟨covered.listener, ?_, covered.fresh, ?_, covered.table, covered.swept, covered.alive⟩
  · intro c accepted unclosed
    by_cases newest : c = s.accepted
    · exact Or.inl ⟨i, by simp [newest]⟩
    · have older : c < s.accepted := by
        simp only [Bridge.loop] at accepted
        omega
      rcases covered.conn c older unclosed with ⟨j, holding⟩ | filed
      · exact Or.inl ⟨j, update_kept holding (by simp [phase]) _⟩
      · exact Or.inr filed
  · intro j moving
    exact update_kept (covered.unstarted j moving) (by simp [phase]) _

theorem Covered.register (covered : Covered s) (phase : s.loops i = .holding conn)
    (running : s.closer ≠ .swept) : Covered (s.register i conn) := by
  have reads (r : Nat) : get (some (s.channels.getD ∅)) r = get s.channels r := by
    cases s.channels <;> rfl
  refine ⟨covered.listener, ?_, ?_, ?_, covered.table, fun swept => absurd swept running,
    covered.alive⟩
  · intro c accepted unclosed
    rcases covered.conn c accepted unclosed with ⟨j, holding⟩ | ⟨r, filed⟩ | pending
    · by_cases same : j = i
      · rw [same, phase] at holding
        cases holding
        exact Or.inr (Or.inl ⟨s.nextRef + 1, by simp [Bridge.register, get_insert]⟩)
      · exact Or.inl ⟨j, by simpa [Bridge.register, same] using holding⟩
    · have older : r ≠ s.nextRef + 1 := by
        rintro rfl
        rw [covered.fresh _ (Nat.lt_succ_self _)] at filed
        cases filed
      exact Or.inr (Or.inl ⟨r, by simpa [Bridge.register, get_insert, older, reads] using filed⟩)
    · exact Or.inr (Or.inr pending)
  · intro r later
    have newer : s.nextRef + 1 < r := later
    have other : r ≠ s.nextRef + 1 := by omega
    simpa [Bridge.register, get_insert, other, reads] using covered.fresh r (by omega)
  · intro j moving
    exact update_kept (covered.unstarted j moving) (by simp [phase]) _

theorem Covered.fail (covered : Covered s) (live : s.listeners i = .live) (p : P) : Covered (s.drop p i .failed) := by
  refine ⟨?_, covered.conn, covered.fresh, covered.unstarted, covered.table, covered.swept, covered.alive⟩
  intro j held
  by_cases same : j = i
  · exact same ▸ covered.listener i (by simp [live, Listener.held])
  · exact covered.listener j (by simpa [Bridge.drop, same] using held)

theorem Covered.endLoop (covered : Covered s) (phase : s.loops i = .accepting) : Covered (s.loop i .ended) := by
  refine ⟨covered.listener, ?_, covered.fresh, ?_, covered.table, covered.swept, covered.alive⟩
  · intro c accepted unclosed
    rcases covered.conn c accepted unclosed with ⟨j, holding⟩ | filed
    · exact Or.inl ⟨j, update_kept holding (by simp [phase]) _⟩
    · exact Or.inr filed
  · intro j moving
    exact update_kept (covered.unstarted j moving) (by simp [phase]) _

theorem Covered.acceptFail (covered : Covered s) (phase : s.loops i = .accepting) (p : P) :
    Covered ((if s.listeners i = .live then s.drop p i .failed else s).loop i .ended) := by
  split
  · rename_i live
    exact (covered.fail live p).endLoop phase
  · exact covered.endLoop phase

theorem Covered.channelClose (covered : Covered s) (filed : get s.channels ref = some conn) :
    Covered { s with channels := delete s.channels ref, hanging := conn :: s.hanging } := by
  refine ⟨covered.listener, ?_, ?_, covered.unstarted, covered.table, ?_, covered.alive⟩
  · intro c accepted unclosed
    rcases covered.conn c accepted unclosed with holding | ⟨r, found⟩ | pending
    · exact Or.inl holding
    · by_cases same : r = ref
      · rw [same, filed] at found
        exact Or.inr (Or.inr (by simp [Option.some.inj found]))
      · exact Or.inr (Or.inl ⟨r, by simpa [get_delete, same] using found⟩)
    · exact Or.inr (Or.inr (List.mem_cons_of_mem conn pending))
  · intro r later
    rw [get_delete, covered.fresh r later, ite_self]
  · intro swept
    rw [(covered.swept swept).2 ref] at filed
    cases filed

theorem Covered.closeConn (covered : Covered s) (conn : Nat) :
    Covered { s with hanging := s.hanging.erase conn, closedConns := conn :: s.closedConns } := by
  refine ⟨covered.listener, ?_, covered.fresh, covered.unstarted, covered.table, covered.swept,
    covered.alive⟩
  intro c accepted unclosed
  rw [List.mem_cons, not_or] at unclosed
  rcases covered.conn c accepted unclosed.2 with holding | filed | pending
  · exact Or.inl holding
  · exact Or.inr (Or.inl filed)
  · exact Or.inr (Or.inr ((List.mem_erase_of_ne unclosed.1).2 pending))

theorem Covered.sweep (covered : Covered s) : Covered s.sweep := by
  refine ⟨?_, ?_, fun _ _ => rfl, covered.unstarted, fun _ _ running => absurd rfl running,
    fun _ => ⟨fun _ => rfl, fun _ => rfl⟩, covered.alive⟩
  · intro i held
    rcases covered.listener i held with own | ⟨p, filed⟩ | pending
    · exact Or.inl own
    · exact Or.inr (Or.inr (List.mem_append_right _ (mem_values.2 ⟨_, filed⟩)))
    · exact Or.inr (Or.inr (List.mem_append_left _ pending))
  · intro c accepted unclosed
    rcases covered.conn c accepted unclosed with holding | ⟨r, filed⟩ | pending
    · exact Or.inl holding
    · exact Or.inr (Or.inr (List.mem_append_right _ (mem_values.2 ⟨_, filed⟩)))
    · exact Or.inr (Or.inr (List.mem_append_left _ pending))

theorem Covered.step (covered : Covered s) (sole : Sole path s) (allowed : Allowed path s a)
    (moved : step path s a = some t) : Covered t := by
  cases step_move moved with
  | begin phase =>
    refine covered.enable (by simp [phase]) (by simp [phase]) ?_
    split <;> simp
  | check phase => exact covered.check phase _
  | granted phase => exact covered.listen phase _
  | refused phase => exact covered.enable (by simp [phase]) (by simp [phase]) (by simp)
  | publish phase => exact covered.publish phase allowed (sole.filing _ phase)
  | disable filed => exact covered.disable filed
  | closeForwarder pending => exact covered.closeForwarder _ _
  | accept phase live => exact covered.accept phase
  | register phase => exact covered.register phase allowed
  | acceptFail phase => exact covered.acceptFail phase _
  | channelClose filed => exact covered.channelClose filed
  | closeConn pending => exact covered.closeConn _
  | closeFlag phase =>
    exact ⟨covered.listener, covered.conn, covered.fresh, covered.unstarted,
      fun i waiting _ => covered.table i waiting (by simp [phase]), nofun, covered.alive⟩
  | sweep phase => exact covered.sweep

end Coverage

section Safety

structure Done (s : Bridge P n) : Prop where
  closed : s.closer = .swept
  enables : ∀ i, s.enables i = .idle ∨ s.enables i = .returned
  loops : ∀ i, s.loops i = .idle ∨ s.loops i = .ended
  dying : s.dying = []
  hanging : s.hanging = []

/-- No nil map is written to, a path has at most one open forwarder, and in the end every
    listener and every connection is closed. -/
structure Safe (path : Fin n → P) (s : Bridge P n) : Prop where
  alive : s.panicked = false
  exclusive : ∀ i j, Open path s i → Open path s j → path i = path j → i = j
  closed : Done s → (∀ i, s.listeners i = .unopened ∨ s.listeners i = .closed) ∧ ∀ c < s.accepted, c ∈ s.closedConns

theorem Covered.safe (covered : Covered s) (sole : Sole path s) : Safe path s := by
  refine ⟨covered.alive, sole.exclusive, fun done => ⟨fun i => ?_, fun c accepted => ?_⟩⟩
  · have unheld : (s.listeners i).held ≠ true := by
      intro held
      rcases covered.listener i held with own | ⟨p, filed⟩ | pending
      · rcases done.enables i with idle | returned
        · simp [own] at idle
        · simp [own] at returned
      · simp [(covered.swept done.closed).1 p] at filed
      · simp [done.dying] at pending
    cases state : s.listeners i <;> simp [state, Listener.held] at unheld ⊢
  · by_contra unclosed
    rcases covered.conn c accepted unclosed with ⟨i, holding⟩ | ⟨r, filed⟩ | pending
    · rcases done.loops i with idle | ended
      · simp [holding] at idle
      · simp [holding] at ended
    · simp [(covered.swept done.closed).2 r] at filed
    · simp [done.hanging] at pending

theorem stream_local_safe {path : Fin n → P} {as : List (Action P n)} {s : Bridge P n}
    (allowed : Along (step path) (Allowed path) (start P n) as) (reached : run (step path) (start P n) as = some s) :
    Safe path s := by
  have held : Filed path s ∧ Sole path s ∧ Covered s := by
    refine run_induct (P := fun _ s => Filed path s ∧ Sole path s ∧ Covered s)
      ⟨filed_start path, sole_start path, covered_start P n⟩ ?_ allowed reached
    rintro _ _ _ _ _ ⟨filed, sole, covered⟩ here moved
    exact ⟨filed.step moved, sole.step filed here moved, covered.step sole here moved⟩
  exact held.2.2.safe held.2.1

instance decidableAllowed (path : Fin n → P) : ∀ (s : Bridge P n) (a : Action P n), Decidable (Allowed path s a)
  | s, .listen i true => inferInstanceAs (Decidable (path i ∉ s.bound))
  | s, .publish _ | s, .register _ => inferInstanceAs (Decidable (s.closer ≠ .swept))
  | s, .acceptFail i => inferInstanceAs
      (Decidable (get s.forwarders (path i) = some i → ∀ j, path j = path i → s.enables j ≠ .listening))
  | _, .begin _ | _, .check _ | _, .listen _ false | _, .disable _ | _, .closeForwarder _ | _, .accept _
  | _, .channelClose _ | _, .closeConn _ | _, .closeFlag | _, .sweep => .isTrue trivial

def agentSocket (_ : Fin 1) : Bytes := text "/tmp/agent.sock"

def forwardAndClose : List (Action Bytes 1) :=
  [.begin 0, .check 0, .listen 0 true, .publish 0, .accept 0, .register 0, .closeFlag, .sweep, .closeForwarder 0,
    .closeConn 0, .acceptFail 0]

theorem forward_and_close_safe :
    ∃ s, run (step agentSocket) (start Bytes 1) forwardAndClose = some s ∧ Done s ∧ s.accepted = 1 ∧
      Safe agentSocket s :=
  have allowed : Along (step agentSocket) (Allowed agentSocket) (start Bytes 1) forwardAndClose := by decide +kernel
  ⟨_, rfl, ⟨rfl, by decide, by decide, rfl, rfl⟩, rfl, stream_local_safe allowed rfl⟩

/-- A listener that is granted while Close runs is filed in a nil map; a connection that
    is accepted before Close and registered behind it stays open. -/
theorem late_filing_unsafe :
    (∃ s, run (step agentSocket) (start Bytes 1)
        [.begin 0, .check 0, .listen 0 true, .closeFlag, .sweep, .publish 0] = some s ∧
      s.panicked = true ∧ ¬ Safe agentSocket s) ∧
    (∃ s, run (step agentSocket) (start Bytes 1)
        [.begin 0, .check 0, .listen 0 true, .publish 0, .accept 0, .closeFlag, .sweep, .closeForwarder 0,
          .register 0, .acceptFail 0] = some s ∧
      Done s ∧ s.accepted = 1 ∧ s.closedConns = [] ∧ ¬ Safe agentSocket s) := by
  refine ⟨⟨_, rfl, rfl, fun safe => ?_⟩, ⟨_, rfl, ⟨rfl, by decide, by decide, rfl, rfl⟩, rfl, rfl, fun safe => ?_⟩⟩
  · exact nomatch safe.alive
  · exact nomatch (safe.closed ⟨rfl, by decide, by decide, rfl, rfl⟩).2 0 Nat.one_pos

end Safety

end ForwardSafety
